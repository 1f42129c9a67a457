import Aiwatcher.Engine.Attempts
import Aiwatcher.Engine.Ended

/-!
# Aiwatcher.Engine.Progress

A plan whose steps are all reported to have started and completed: what is dispatched,
and how the run ends.  The step table, seen as a schedule of the plan's graph, is
released when the run opens and finished step by step: `OnCourse` is what every such
run keeps and `Advances` what one decision adds to its history.
-/

namespace Aiwatcher.Engine

open Library List Machine Execution

/-! ## The schedule of a run -/

/-- Where a step is, as far as the order of the plan goes. -/
def StepState.phase (s : StepState) : Dag.Phase :=
  match s.state.stateType with
  | .scheduled => .waiting
  | .completed => .done
  | _ => .out

/-- The schedule a run is. -/
def Execution.phase (x : Execution) (t : String) : Dag.Phase :=
  ((x.step t).map StepState.phase).getD .waiting

variable {id : String} {input : WorkflowMessage} {msgs : List WorkflowMessage} {s : StepState}
  {t : String}

theorem phase_of_step {x : Execution} (hs : x.step t = some s) : x.phase t = s.phase := by
  rw [phase, hs]
  rfl

theorem StepState.phase_eq_waiting : s.phase = .waiting ↔ s.state.stateType = .scheduled := by
  unfold StepState.phase
  cases s.state.stateType <;> simp

theorem StepState.phase_eq_done : s.phase = .done ↔ s.state.stateType = .completed := by
  unfold StepState.phase
  cases s.state.stateType <;> simp

theorem hasCompleted_iff {x : Execution} : x.hasCompleted t = true ↔ x.phase t = .done := by
  unfold hasCompleted phase
  cases x.step t with
  | none => simp
  | some s => simp [StepState.phase_eq_done]

theorem phase_record (x : Execution) (msgs : List WorkflowMessage) (t : String) :
    (x.record msgs).phase t =
      ((x.step t).map fun s => (s.record (aboutStep t msgs)).phase).getD .waiting := by
  rw [phase, step_record, Option.map_map]
  rfl

theorem phase_of_unplanned {x : Execution} (hx : x.WellFormed) (h : t ∉ x.plan.ids) :
    x.phase t = .waiting := by
  rw [← hx.planned, Bool.not_eq_true, Option.isSome_eq_false_iff, Option.isNone_iff_eq_none] at h
  rw [phase, h]
  rfl

/-- What `dispatch_ready` looks for is what the schedule calls ready. -/
theorem isReady_iff_ready {x : Execution} (hx : x.WellFormed) :
    isReady x t = true ↔ Dag.Ready x.plan.parentsOf x.plan.ids x.phase t := by
  have hdone : ∀ p, x.phase p = .done ↔
      ∃ sp, x.step p = some sp ∧ sp.state.stateType = .completed := by
    intro p
    rw [← hasCompleted_iff, hasCompleted, Option.any_eq_true]
    simp
  cases hs : x.step t with
  | none =>
    have hnot : t ∉ x.plan.ids := by simp [← hx.planned, hs]
    simp [isReady, hs, Dag.Ready, hnot]
  | some s =>
    have hmem : t ∈ x.plan.ids := (hx.planned t).mp (by simp [hs])
    rw [isReady_iff hs, Dag.Ready, phase_of_step hs, StepState.phase_eq_waiting]
    simp only [hmem, hdone, true_and]

/-- A plan a start accepts, whose graph is its own and whose steps ask nobody. -/
structure ExecutionPlan.Runnable (plan : ExecutionPlan) : Prop where
  steps : plan.steps ≠ []
  acyclic : plan.isAcyclic = true
  nodup : plan.ids.Nodup
  edges : ∀ e ∈ plan.edges, e.fromId ∈ plan.ids ∧ e.toId ∈ plan.ids
  unasked : ∀ t ∈ plan.ids, plan.asksSomebody t = false

variable {d : Digests} {x y z : Execution} {now : OffsetDateTime} {plan : ExecutionPlan}

/-! ## What a dispatch does to the schedule -/

theorem aboutStep_dispatch (hplan : plan.Runnable) (hy : y.WellFormed) (hyp : y.plan = plan)
    (hd : y.dispatches = true) (t : String) :
    (¬ Dag.Ready plan.parentsOf plan.ids y.phase t ∧ aboutStep t (dispatchMessages d y now) = []) ∨
      ∃ kind cache key, Dag.Ready plan.parentsOf plan.ids y.phase t ∧
        aboutStep t (dispatchMessages d y now) = [.event (.stepScheduled t 1 kind cache),
          .command (.executeStep t 1 kind key)] := by
  subst hyp
  rw [aboutStep_dispatchMessages]
  by_cases hready : Dag.Ready y.plan.parentsOf y.plan.ids y.phase t
  · obtain ⟨p, hp⟩ := ExecutionPlan.mem_ids_iff_step.mp hready.1
    have hasks := hplan.unasked t hready.1
    rw [ExecutionPlan.asksSomebody_of_step hp, Option.isSome_eq_false_iff,
      Option.isNone_iff_eq_none] at hasks
    refine Or.inr ⟨p.runtime.kind, scheduledCacheKey d y p t, idempotencyKey y.executionId t 1,
      hready, ?_⟩
    rw [if_pos ⟨hd, (isReady_iff_ready hy).mpr hready⟩, count_eq_one_of_mem hplan.nodup hready.1, replicate_one,
      flatten_singleton, scheduleMessages_of_step hp, attemptMessages, hasks]
  · exact Or.inl ⟨hready, if_neg fun h => hready ((isReady_iff_ready hy).mp h.2)⟩

/-- A step is on its first attempt once it went out. -/
def StepState.OnFirstAttempt (s : StepState) : Prop :=
  s.currentAttempt = if s.phase = .waiting then 0 else 1

theorem record_dispatch (hplan : plan.Runnable) (hy : y.WellFormed) (hyp : y.plan = plan)
    (hd : y.dispatches = true) (hz : z.WellFormed) (hzp : z.plan = plan) (hphase : z.phase = y.phase)
    (hnumbered : ∀ t s, z.step t = some s → s.OnFirstAttempt) :
    (z.record (dispatchMessages d y now)).phase =
        Dag.release plan.parentsOf plan.ids y.phase ∧
      ∀ t s, (z.record (dispatchMessages d y now)).step t = some s → s.OnFirstAttempt := by
  constructor
  · funext t
    rw [phase_record, Dag.release, ← hphase]
    cases hs : z.step t with
    | none =>
      have hnot : t ∉ plan.ids := by
        rw [← hzp, ← hz.planned, hs]
        simp
      rw [if_neg fun h => hnot h.1, phase_of_unplanned hz (hzp ▸ hnot)]
      rfl
    | some s =>
      rw [hphase]
      rcases @aboutStep_dispatch d y now plan hplan hy hyp hd t with
        ⟨hno, habout⟩ | ⟨kind, cache, key, hready, habout⟩
      · rw [habout, if_neg hno, ← hphase, phase_of_step hs]
        rfl
      · rw [habout, if_pos hready]
        rfl
  · intro t s' hs'
    obtain ⟨s, hs, rfl⟩ := exists_step_of_record hs'
    rcases @aboutStep_dispatch d y now plan hplan hy hyp hd t with
      ⟨-, habout⟩ | ⟨kind, cache, key, -, habout⟩
    · rw [habout]
      exact hnumbered t s hs
    · rw [habout]
      rfl

theorem dispatched_dispatch (hplan : plan.Runnable) (hy : y.WellFormed) (hyp : y.plan = plan)
    (hd : y.dispatches = true) (t : String) :
    dispatched (aboutStep t (dispatchMessages d y now)) =
      if Dag.Ready plan.parentsOf plan.ids y.phase t then [(t, 1)] else [] := by
  rcases @aboutStep_dispatch d y now plan hplan hy hyp hd t with
    ⟨hno, habout⟩ | ⟨kind, cache, key, hready, habout⟩
  · rw [habout, if_neg hno]
    rfl
  · rw [habout, if_pos hready]
    rfl

/-! ## One decision -/

def WorkflowEvent.completesRun : WorkflowEvent → Bool
  | .executionCompleted => true
  | _ => false

/-- How often some messages say that the run has completed. -/
def completions (msgs : List WorkflowMessage) : Nat :=
  (events msgs).countP WorkflowEvent.completesRun

theorem completions_append (msgs msgs' : List WorkflowMessage) :
    completions (msgs ++ msgs') = completions msgs + completions msgs' := by
  rw [completions, events_append, countP_append]
  rfl

theorem completions_eq_runEvents (msgs : List WorkflowMessage) :
    completions msgs = (runEvents msgs).countP WorkflowEvent.completesRun := by
  unfold completions runEvents
  rw [countP_filter]
  refine countP_congr fun e _ => ?_
  cases e <;> simp [WorkflowEvent.completesRun, WorkflowEvent.stepId?]

/-- What a run of `plan` keeps while its steps are reported in order. -/
structure Execution.OnCourse (plan : ExecutionPlan) (x : Execution) : Prop where
  wellFormed : x.WellFormed
  planned : x.plan = plan
  mode : x.mode = .compiled
  uncancelled : x.cancelling = false
  numbered : ∀ t s, x.step t = some s → s.OnFirstAttempt
  orderly : Dag.Orderly plan.parentsOf plan.ids x.phase
  state : x.state.stateType = if Dag.Finished plan.ids x.phase then .completed else .running

/-- What one decision does to the schedule, and says about it. -/
structure Advances (plan : ExecutionPlan) (x : Execution) (msgs : List WorkflowMessage) : Prop where
  onCourse : (x.record msgs).OnCourse plan
  forward : ∀ t, (x.record msgs).phase t = .waiting → x.phase t = .waiting
  dispatched : ∀ t, dispatched (aboutStep t msgs) =
    if x.phase t = .waiting ∧ (x.record msgs).phase t ≠ .waiting then [(t, 1)] else []
  finished : Dag.Finished plan.ids x.phase → Dag.Finished plan.ids (x.record msgs).phase
  completions : completions msgs =
    if Dag.Finished plan.ids (x.record msgs).phase ∧ ¬ Dag.Finished plan.ids x.phase then 1 else 0

theorem advances_of_same (hx : x.OnCourse plan) (hphase : (x.record msgs).phase = x.phase)
    (hnumbered : ∀ t s, (x.record msgs).step t = some s → s.OnFirstAttempt)
    (hdispatched : ∀ t, dispatched (aboutStep t msgs) = []) (hrun : runEvents msgs = []) :
    Advances plan x msgs := by
  refine ⟨⟨wellFormed_record hx.wellFormed _, ?_, ?_, ?_, hnumbered, ?_, ?_⟩, ?_, ?_, ?_, ?_⟩
  · rw [plan_record, hx.planned]
  · rw [mode_record, hx.mode]
  · rw [cancelling_record_of_runEvents, hrun, hx.uncancelled]
    rfl
  · rw [hphase]
    exact hx.orderly
  · rw [state_record_of_runEvents, hrun, hphase]
    exact hx.state
  · intro t ht
    rwa [hphase] at ht
  · intro t
    rw [hdispatched, hphase, if_neg fun h => h.2 h.1]
  · rw [hphase]
    exact id
  · rw [completions_eq_runEvents, hrun, hphase, if_neg fun h => h.2 h.1]
    rfl

theorem phase_of_opens (h : Opens input x) (t : String) : x.phase t = .waiting := by
  cases hs : x.step t with
  | none => rw [phase, hs]; rfl
  | some s =>
    obtain ⟨kind, rfl⟩ := fresh_of_opens h hs
    rw [phase_of_step hs]
    rfl

theorem not_finished_of_opens (h : Opens input x) (hplan : plan.Runnable) :
    ¬ Dag.Finished plan.ids x.phase := by
  obtain ⟨p, hp⟩ := exists_mem_of_ne_nil _ hplan.steps
  intro hall
  have hdone := hall p.id (mem_map_of_mem hp)
  rw [phase_of_opens h] at hdone
  cases hdone

theorem advances_of_opens {input : WorkflowMessage} (h : Opens input x) (hplan : plan.Runnable)
    (hxp : x.plan = plan) (hmode : x.mode = .compiled) :
    Advances plan x (dispatchMessages d x now) := by
  have hx := wellFormed_of_opens h
  have hwaiting := phase_of_opens h
  have hd : x.dispatches = true ∧ x.cancelling = false ∧ x.state.stateType = .running := by
    cases h
    exact ⟨by simpa [dispatches, opened] using hmode, rfl, rfl⟩
  have hfresh : ∀ t s, x.step t = some s → s.OnFirstAttempt := by
    intro t s hs
    obtain ⟨kind, rfl⟩ := fresh_of_opens h hs
    rfl
  obtain ⟨hphase, hnumbered⟩ := @record_dispatch d x x now plan hplan hx hxp hd.1 hx hxp rfl hfresh
  have hopen := not_finished_of_opens h hplan
  refine ⟨⟨wellFormed_record hx _, ?_, ?_, ?_, hnumbered, ?_, ?_⟩, ?_, ?_, ?_, ?_⟩
  · rw [plan_record, hxp]
  · rw [mode_record, hmode]
  · rw [cancelling_record_of_runEvents, runEvents_dispatchMessages, hd.2.1]
    rfl
  · rw [hphase]
    exact Dag.orderly_release fun t ht => absurd (hwaiting t) ht
  · rw [state_record_of_runEvents, runEvents_dispatchMessages, hphase,
      if_neg fun h => hopen (Dag.finished_release.mp h)]
    exact hd.2.2
  · exact fun t _ => hwaiting t
  · intro t
    rw [dispatched_dispatch hplan hx hxp hd.1, hphase]
    exact if_congr Dag.leaves_release.symm rfl rfl
  · exact fun h => absurd h hopen
  · rw [completions_eq_runEvents, runEvents_dispatchMessages, hphase,
      if_neg fun h => hopen (Dag.finished_release.mp h.1)]
    rfl

theorem advances_of_started (hx : x.OnCourse plan) (hs : x.step id = some s)
    (hout : s.phase = .out) :
    Advances plan x [.event (.stepStarted id s.currentAttempt)] := by
  have hother : ∀ t, id ≠ t → aboutStep t [.event (.stepStarted id s.currentAttempt)] = [] :=
    fun t ht => aboutStep_cons_of_ne (by simpa [WorkflowMessage.stepId?, WorkflowEvent.stepId?]) []
  have hself : aboutStep id [.event (.stepStarted id s.currentAttempt)] =
      [.event (.stepStarted id s.currentAttempt)] := aboutStep_cons_of_eq rfl []
  refine advances_of_same hx ?_ ?_ ?_ rfl
  · funext t
    by_cases ht : id = t
    · subst ht
      rw [phase_record, hs, hself, phase_of_step hs, hout]
      rfl
    · rw [phase_record, hother t ht]
      rfl
  · intro t s' hs'
    obtain ⟨s₀, hs₀, rfl⟩ := exists_step_of_record hs'
    by_cases ht : id = t
    · subst ht
      cases hs.symm.trans hs₀
      have hfirst := hx.numbered id s hs
      rw [StepState.OnFirstAttempt, hout] at hfirst
      rw [hself]
      exact hfirst
    · rw [hother t ht]
      exact hx.numbered t s₀ hs₀
  · intro t
    by_cases ht : id = t
    · subst ht
      rw [hself]
      rfl
    · rw [hother t ht]
      rfl

theorem phase_completedAt (hs : x.step id = some s) :
    (completedAt x id).phase = Dag.settle x.phase id := by
  funext t
  rw [phase, step_completedAt, Dag.settle]
  by_cases ht : t = id
  · subst ht
    rw [if_pos rfl, if_pos rfl, hs]
    rfl
  · rw [if_neg ht, if_neg (Ne.symm ht)]
    rfl

theorem phase_apply_stepCompleted (hs : x.step id = some s) (attempt : UInt32)
    (outputs : List ArtifactRef) (result : Option Value) :
    (apply x (.stepCompleted id attempt outputs result)).phase = Dag.settle x.phase id := by
  funext t
  rw [phase, step_apply, Dag.settle]
  by_cases ht : t = id
  · subst ht
    rw [if_pos (by rfl), if_pos rfl, hs]
    rfl
  · rw [if_neg ht, if_neg (by simpa [WorkflowEvent.stepId?] using Ne.symm ht)]
    rfl

theorem doneAfter_iff (hx : x.WellFormed) (hs : x.step id = some s) :
    x.doneAfter id = true ↔ Dag.Finished x.plan.ids (Dag.settle x.phase id) := by
  rw [doneAfter, all_values_steps (wellFormed_completedAt hx id), all_eq_true,
    plan_completedAt, ← phase_completedAt hs]
  exact forall_congr' fun t => forall_congr' fun _ => hasCompleted_iff

/-- What a reported completion says. -/
def completionMessages (d : Digests) (x : Execution) (id : String) (attempt : UInt32)
    (outputs : List ArtifactRef) (result : Option Value) (now : OffsetDateTime) :
    List WorkflowMessage :=
  .event (.stepCompleted id attempt outputs result) :: followMessages d x id now

section completion

variable {id : String} {s : StepState} {outputs : List ArtifactRef} {result : Option Value}

theorem step_record_completionMessages (t : String) :
    (x.record (completionMessages d x id s.currentAttempt outputs result now)).step t =
      ((apply x (.stepCompleted id s.currentAttempt outputs result)).record
        (dispatchMessages d (completedAt x id) now)).step t := by
  rw [completionMessages, record_cons_event, followMessages, record_append,
    step_record, aboutStep_completionEnd]
  exact Option.map_id'

theorem dispatched_completionMessages (t : String) :
    dispatched (aboutStep t (completionMessages d x id s.currentAttempt outputs result now)) =
      dispatched (aboutStep t (dispatchMessages d (completedAt x id) now)) := by
  unfold completionMessages followMessages
  by_cases ht : id = t
  · subst ht
    rw [aboutStep_cons_of_eq rfl, aboutStep_append, aboutStep_completionEnd, append_nil]
    rfl
  · rw [aboutStep_cons_of_ne (by simpa [WorkflowMessage.stepId?, WorkflowEvent.stepId?]),
      aboutStep_append, aboutStep_completionEnd, append_nil]

theorem not_finished_of_out (hx : x.OnCourse plan) (hs : x.step id = some s) (hout : s.phase = .out) :
    ¬ Dag.Finished plan.ids x.phase := by
  have hmem : id ∈ plan.ids := hx.planned ▸ (hx.wellFormed.planned id).mp (by simp [hs])
  intro hall
  have hdone := hall id hmem
  rw [phase_of_step hs, hout] at hdone
  cases hdone

theorem dispatches_completedAt (hx : x.OnCourse plan) (hs : x.step id = some s)
    (hout : s.phase = .out) : (completedAt x id).dispatches = true := by
  have hrunning := hx.state
  rw [if_neg (not_finished_of_out hx hs hout)] at hrunning
  simp [dispatches, completedAt, modifyStep, hx.mode, hx.uncancelled, hrunning]

theorem record_completionMessages (hplan : plan.Runnable) (hx : x.OnCourse plan)
    (hs : x.step id = some s) (hout : s.phase = .out) :
    (x.record (completionMessages d x id s.currentAttempt outputs result now)).phase =
        Dag.finish plan.parentsOf plan.ids x.phase id ∧
      ∀ t s', (x.record (completionMessages d x id s.currentAttempt outputs result now)).step t =
        some s' → s'.OnFirstAttempt := by
  -- `z` is what the fact makes of the run; the decider looks at `completedAt x id`
  let z := apply x (.stepCompleted id s.currentAttempt outputs result)
  have hz : z.WellFormed :=
    wellFormed_record hx.wellFormed [.event (.stepCompleted id s.currentAttempt outputs result)]
  have hsame : z.phase = (completedAt x id).phase :=
    (phase_apply_stepCompleted hs _ _ _).trans (phase_completedAt hs).symm
  have hznumbered : ∀ t s', z.step t = some s' → s'.OnFirstAttempt := by
    intro t s' hs'
    rw [step_apply] at hs'
    split at hs'
    · rename_i ht
      cases ht
      rw [hs] at hs'
      cases hs'
      have hfirst := hx.numbered id s hs
      rw [StepState.OnFirstAttempt, hout] at hfirst
      exact hfirst
    · exact hx.numbered t s' hs'
  have hdispatch := @record_dispatch d (completedAt x id) z now plan hplan
    (wellFormed_completedAt hx.wellFormed id) hx.planned (dispatches_completedAt hx hs hout) hz
    hx.planned hsame hznumbered
  rw [phase_completedAt hs] at hdispatch
  refine ⟨?_, fun t s' hs' => ?_⟩
  · refine Eq.trans ?_ hdispatch.1
    funext t
    rw [phase, step_record_completionMessages]
    rfl
  · rw [step_record_completionMessages] at hs'
    exact hdispatch.2 t s' hs'

theorem runEvents_completionMessages (hx : x.OnCourse plan) (hs : x.step id = some s) :
    runEvents (completionMessages d x id s.currentAttempt outputs result now) =
      if Dag.Finished plan.ids (Dag.finish plan.parentsOf plan.ids x.phase id) then
        [.executionCompleted] else [] := by
  have hhead : runEvents (completionMessages d x id s.currentAttempt outputs result now) =
      runEvents (followMessages d x id now) := rfl
  rw [hhead, runEvents_followMessages, hx.uncancelled, if_neg Bool.false_ne_true]
  refine if_congr ?_ rfl rfl
  rw [doneAfter_iff hx.wellFormed hs, hx.planned]
  exact Dag.finished_release.symm

theorem advances_of_completed (hplan : plan.Runnable) (hx : x.OnCourse plan)
    (hs : x.step id = some s) (hout : s.phase = .out) :
    Advances plan x (completionMessages d x id s.currentAttempt outputs result now) := by
  have hwaits : x.phase id ≠ .waiting := by simp [phase_of_step hs, hout]
  have hopen := not_finished_of_out hx hs hout
  have hy := wellFormed_completedAt hx.wellFormed id
  have hd := dispatches_completedAt hx hs hout
  have hrun := @runEvents_completionMessages d x now plan id s outputs result hx hs
  obtain ⟨hphase, hnumbered⟩ :=
    @record_completionMessages d x now plan id s outputs result hplan hx hs hout
  refine ⟨⟨wellFormed_record hx.wellFormed _, ?_, ?_, ?_, hnumbered, ?_, ?_⟩, ?_, ?_, ?_, ?_⟩
  · rw [plan_record, hx.planned]
  · rw [mode_record, hx.mode]
  · rw [cancelling_record_of_runEvents, hrun, hx.uncancelled]
    split <;> rfl
  · rw [hphase]
    exact Dag.orderly_finish hx.orderly hwaits
  · rw [state_record_of_runEvents, hrun, hphase]
    split
    · rfl
    · exact hx.state.trans (if_neg hopen)
  · intro t ht
    rw [hphase] at ht
    exact (Dag.settle_eq_waiting hwaits).mp (Dag.release_eq_waiting.mp ht).1
  · intro t
    rw [dispatched_completionMessages, dispatched_dispatch hplan hy hx.planned hd, hphase,
      phase_completedAt hs]
    exact if_congr (Dag.leaves_finish hwaits).symm rfl rfl
  · exact fun h => absurd h hopen
  · rw [completions_eq_runEvents, hrun, hphase]
    by_cases hfin : Dag.Finished plan.ids (Dag.finish plan.parentsOf plan.ids x.phase id)
    · rw [if_pos hfin, if_pos ⟨hfin, hopen⟩]
      rfl
    · rw [if_neg hfin, if_neg fun h => hfin h.1]
      rfl

end completion

/-- A report on an attempt that was dispatched: attempts are numbered from one. -/
def WorkflowMessage.isReport : WorkflowMessage → Bool
  | .event (.stepStarted _ attempt) | .event (.stepCompleted _ attempt ..) => attempt != 0
  | _ => false

/-- Whether an input is no start of a step that has completed. -/
def Execution.startsInOrder (x : Execution) : WorkflowMessage → Bool
  | .event (.stepStarted id _) => !x.hasCompleted id
  | _ => true

theorem out_of_report (hx : x.OnCourse plan) (hs : x.step t = some s)
    (hattempt : (s.currentAttempt != 0) = true) (hopen : s.state.stateType ≠ .completed) :
    s.phase = .out := by
  have hfirst := hx.numbered t s hs
  cases hphase : s.phase with
  | out => rfl
  | done => exact absurd (StepState.phase_eq_done.mp hphase) hopen
  | waiting =>
    rw [StepState.OnFirstAttempt, if_pos hphase] at hfirst
    rw [hfirst] at hattempt
    cases hattempt

/-- **One report**, in order, advances the run. -/
theorem advances_of_decided (hplan : plan.Runnable) (hx : x.OnCourse plan)
    (h : Decided d x now input msgs) (hreport : input.isReport = true)
    (horder : x.startsInOrder input = true) : Advances plan x msgs := by
  cases h with
  | started hs =>
    refine advances_of_started hx hs (out_of_report hx hs hreport ?_)
    simpa [startsInOrder, hasCompleted, hs] using horder
  | repeated _ _ _ =>
    exact advances_of_same hx rfl hx.numbered (fun _ => rfl) rfl
  | finished hs hfin =>
    cases hfin with
    | completed hopen =>
      exact advances_of_completed hplan hx hs (out_of_report hx hs hreport hopen)
    | cacheHit _ => cases hreport
    | skipped _ _ => cases hreport
  | answered _ hanswers => cases hanswers <;> cases hreport
  | failed _ hfails => cases hfails <;> cases hreport
  | _ => cases hreport

theorem completes_last (hx : x.OnCourse plan) (h : Decided d x now input msgs)
    (hreport : input.isReport = true) (hend : .event .executionCompleted ∈ msgs) :
    ∃ id attempt outputs result, input = .event (.stepCompleted id attempt outputs result) ∧
      ∀ t ∈ plan.ids, x.hasCompleted t = true ↔ t ≠ id := by
  have hrun := runMove_of_decided h
  rw [← mem_runEvents rfl] at hend
  generalize runEvents msgs = es at hrun hend
  cases hrun with
  | @completed _ id s hs hconcludes _ hdone =>
    rw [doneAfter_iff hx.wellFormed hs, hx.planned] at hdone
    have hothers : s.state.stateType ≠ .completed → ∀ t ∈ plan.ids,
        x.hasCompleted t = true ↔ t ≠ id := by
      intro hopen t ht
      rw [hasCompleted_iff]
      by_cases htid : t = id
      · subst htid
        rw [phase_of_step hs, StepState.phase_eq_done]
        simp [hopen]
      · have := hdone t ht
        rw [Dag.settle, if_neg htid] at this
        simp [this, htid]
    rcases hconcludes with ⟨event, hfin⟩ | ⟨answeredBy, response, hanswers, -⟩
    · cases hfin with
      | completed hopen => exact ⟨_, _, _, _, rfl, hothers hopen⟩
      | cacheHit _ => cases hreport
      | skipped _ _ => cases hreport
    · cases hanswers <;> cases hreport
  | failed _ _ =>
    have := mem_singleton.mp hend
    unfold failureEnd at this
    split at this <;> cases this
  | _ => simp at hend

/-! ## Over a run -/

/-- The history of a run on course: each step out or done was dispatched once and nothing
else was, and the end was said once if the schedule is finished. -/
structure Told (plan : ExecutionPlan) (said : List WorkflowMessage) (x : Execution) : Prop where
  dispatched : ∀ t n, (dispatched said).count (t, n) =
    if n = 1 ∧ x.phase t ≠ .waiting then 1 else 0
  completions : completions said = if Dag.Finished plan.ids x.phase then 1 else 0

theorem told_record {said msgs : List WorkflowMessage} (hx : Told plan said x)
    (h : Advances plan x msgs) : Told plan (said ++ msgs) (x.record msgs) := by
  constructor
  · intro t n
    rw [dispatched_append, count_append, count_dispatched msgs, h.dispatched, hx.dispatched]
    by_cases hwas : x.phase t = .waiting
    · by_cases his : (x.record msgs).phase t = .waiting
      · simp [hwas, his]
      · by_cases hn : n = 1
        · subst hn
          simp [hwas, his]
        · simp [hwas, his, hn, Ne.symm hn]
    · have his : (x.record msgs).phase t ≠ .waiting := fun h' => hwas (h.forward t h')
      simp [hwas, his]
  · rw [completions_append, h.completions, hx.completions]
    by_cases hwas : Dag.Finished plan.ids x.phase
    · simp [hwas, h.finished hwas]
    · simp [hwas]

/-- What a run of `plan` has come to: nothing was dispatched twice, and either somebody
is still at work or every step was dispatched and has completed. -/
structure Progress (plan : ExecutionPlan) (said : List WorkflowMessage) (x : Execution) : Prop where
  once : ∀ a, (dispatched said).count a ≤ 1
  planned : ∀ t n, (t, n) ∈ dispatched said → t ∈ plan.ids ∧ n = 1
  going : x.state.stateType.isTerminal = false → completions said = 0 ∧
    ∃ t, (t, 1) ∈ dispatched said ∧ x.hasCompleted t = false
  ended : x.state.stateType.isTerminal = true → completions said = 1 ∧
    ∀ t ∈ plan.ids, (dispatched said).count (t, 1) = 1 ∧ x.hasCompleted t = true

theorem progress_of_told (hplan : plan.Runnable) (hx : x.OnCourse plan)
    {said : List WorkflowMessage} (h : Told plan said x) : Progress plan said x := by
  have hstate := hx.state
  refine ⟨?_, ?_, ?_, ?_⟩
  · rintro ⟨t, n⟩
    rw [h.dispatched]
    split <;> omega
  · intro t n hmem
    have hcount := count_pos_iff.mpr hmem
    rw [h.dispatched] at hcount
    split at hcount
    · rename_i hout
      refine ⟨?_, hout.1⟩
      by_contra hnot
      exact hout.2 (phase_of_unplanned hx.wellFormed (hx.planned ▸ hnot))
    · cases hcount
  · intro hterm
    have hopen : ¬ Dag.Finished plan.ids x.phase := by
      intro hall
      rw [hstate, if_pos hall] at hterm
      cases hterm
    refine ⟨by rw [h.completions, if_neg hopen], ?_⟩
    have hleft : ∃ t ∈ plan.ids, x.phase t ≠ .done := by
      by_contra hnone
      exact hopen fun t ht => by_contra fun hnot => hnone ⟨t, ht, hnot⟩
    obtain ⟨t, -, hout⟩ := Dag.exists_out (ExecutionPlan.founded_of_isAcyclic hplan.acyclic)
      (fun t _ p hp => (hplan.edges _ (ExecutionPlan.mem_parentsOf.mp hp)).1) hx.orderly hleft
    refine ⟨t, count_pos_iff.mp ?_, ?_⟩
    · rw [h.dispatched, if_pos ⟨rfl, by simp [hout]⟩]
      exact Nat.one_pos
    · rw [← Bool.not_eq_true, hasCompleted_iff, hout]
      exact fun h => nomatch h
  · intro hterm
    have hall : Dag.Finished plan.ids x.phase := by
      by_contra hopen
      rw [hstate, if_neg hopen] at hterm
      cases hterm
    refine ⟨by rw [h.completions, if_pos hall], fun t ht => ⟨?_, hasCompleted_iff.mpr (hall t ht)⟩⟩
    rw [h.dispatched, if_pos ⟨rfl, by simp [hall t ht]⟩]

/-- The plan and the mode a start names. -/
def WorkflowMessage.starts? : WorkflowMessage → Option (ExecutionPlan × ExecutionMode)
  | .command (.startExecution _ plan _ mode ..) => some (plan, mode)
  | _ => none

theorem exists_opening (hplan : plan.Runnable) {start : Delivery}
    (hstart : start.input.starts? = some (plan, .compiled)) :
    ∃ y out, (machine d).step .empty start =
        some (out, .active (y.record (dispatchMessages d y start.now))) ∧
      Opens start.input y ∧ y.plan = plan ∧ y.mode = .compiled ∧
      contents out = openingFacts y ++ dispatchMessages d y start.now := by
  have hopened : ∀ y, Opens start.input y → y.plan = plan ∧ y.mode = .compiled := by
    intro y hy
    generalize start.input = input at hstart hy
    cases hy
    cases hstart
    exact ⟨rfl, rfl⟩
  have haccepted : ∃ p, (machine d).step .empty start = some p := by
    obtain ⟨input, cause, now⟩ := start
    cases input with
    | command c =>
      cases c with
      | startExecution _ _ _ _ _ _ _ =>
        cases hstart
        simp only [machine, decide, List.isEmpty_iff, hplan.steps, hplan.acyclic, if_false,
          Bool.not_true, Bool.false_eq_true]
        exact ⟨_, rfl⟩
      | _ => cases hstart
    | _ => cases hstart
  obtain ⟨⟨out, state'⟩, hstep⟩ := haccepted
  rcases step_cases hstep with ⟨y, -, hopens, hout, rfl⟩ | ⟨_, hempty, -⟩
  · exact ⟨y, out, hstep, hopens, (hopened y hopens).1, (hopened y hopens).2, hout⟩
  · cases hempty

/-- What a step of a run in order dispatches waits for nothing, and what ends the run
completes the only step left. -/
structure StepsInOrder (plan : ExecutionPlan)
    (st : Step ExecutionState Delivery PendingMessage) : Prop where
  parents : ∀ a ∈ dispatched (contents st.out), ∀ p ∈ plan.parentsOf a.1,
    ∃ x, st.after = .active x ∧ x.hasCompleted p = true
  ending : .event .executionCompleted ∈ contents st.out →
    ∃ x id attempt outputs result, st.before = .active x ∧
      st.input.input = .event (.stepCompleted id attempt outputs result) ∧
      ∀ t ∈ plan.ids, x.hasCompleted t = true ↔ t ≠ id

theorem parents_of_dispatched (h : Advances plan x msgs) {a : String × UInt32}
    (ha : a ∈ dispatched msgs) {p : String} (hp : p ∈ plan.parentsOf a.1) :
    (x.record msgs).hasCompleted p = true := by
  obtain ⟨t, n⟩ := a
  have hcount := count_pos_iff.mpr ha
  rw [count_dispatched, h.dispatched] at hcount
  split at hcount
  · rename_i hout
    exact hasCompleted_iff.mpr (h.onCourse.orderly.closed t hout.2 p hp)
  · cases hcount

/-- A report on a dispatched attempt that starts no completed step. -/
def ReportedInOrder (state : ExecutionState) (i : Delivery) : Prop :=
  i.input.isReport = true ∧ ∀ x, state = .active x → x.startsInOrder i.input = true

theorem advances_of_step (hplan : plan.Runnable) (hx : x.OnCourse plan) {i : Delivery}
    {out : Decision} {state' : ExecutionState} (hadmits : ReportedInOrder (.active x) i)
    (hstep : (machine d).step (.active x) i = some (out, state')) :
    Decided d x i.now i.input (contents out) ∧ Advances plan x (contents out) ∧
      state' = .active (x.record (contents out)) := by
  rcases step_cases hstep with ⟨_, hempty, -⟩ | ⟨_, hactive, hdecided, rfl⟩
  · cases hempty
  · cases hactive
    exact ⟨hdecided, advances_of_decided hplan hx hdecided hadmits.1 (hadmits.2 x rfl), rfl⟩

/-- The history of a run on course goes with the state it leads to. -/
theorem told_last (hplan : plan.Runnable) (hx : x.OnCourse plan) {said : Decision}
    (htold : Told plan (contents said) x) {is : List Delivery}
    (hadmits : ∀ st ∈ (machine d).run (.active x) is, ReportedInOrder st.before st.input) :
    ∃ y, (machine d).last (.active x) is = .active y ∧ y.OnCourse plan ∧
      Told plan (contents (said ++ (machine d).emitted (.active x) is)) y := by
  refine accum_run (M := machine d)
    (fun said state => ∃ y, state = .active y ∧ y.OnCourse plan ∧ Told plan (contents said) y)
    ReportedInOrder ?_ ⟨x, rfl, hx, htold⟩ hadmits
  rintro said state i out state' ⟨y, rfl, hy, htold⟩ hadmit hstep
  obtain ⟨-, hadv, rfl⟩ := advances_of_step hplan hy hadmit hstep
  refine ⟨_, rfl, hadv.onCourse, ?_⟩
  rw [contents, map_append]
  exact told_record htold hadv

theorem stepsInOrder_run (hplan : plan.Runnable) (hx : x.OnCourse plan) {is : List Delivery}
    (hadmits : ∀ st ∈ (machine d).run (.active x) is, ReportedInOrder st.before st.input) :
    ∀ st ∈ (machine d).run (.active x) is, StepsInOrder plan st := by
  intro st hst
  obtain ⟨⟨y, hy, hcourse⟩, -⟩ := inv_of_mem_run (M := machine d)
    (fun state => ∃ y, state = .active y ∧ y.OnCourse plan) ReportedInOrder
    (by
      rintro state i out state' ⟨y, rfl, hy⟩ hadmit hstep
      obtain ⟨-, hadv, rfl⟩ := advances_of_step hplan hy hadmit hstep
      exact ⟨_, rfl, hadv.onCourse⟩)
    ⟨x, rfl, hx⟩ hadmits st hst
  have hadmit := hadmits st hst
  have hstep := step_of_mem_run hst
  rw [hy] at hadmit hstep
  obtain ⟨hdecided, hadv, hafter⟩ := advances_of_step hplan hcourse hadmit hstep
  refine ⟨fun a ha p hp => ⟨_, hafter, parents_of_dispatched hadv ha hp⟩, fun hend => ?_⟩
  obtain ⟨id, attempt, outputs, result, hinput, hlast⟩ :=
    completes_last hcourse hdecided hadmit.1 hend
  exact ⟨y, id, attempt, outputs, result, hy, hinput, hlast⟩

/-- **Progress**: a runnable plan, reported on in any order in which no step starts after
it completed, is dispatched step by step as parents complete, never stands still before
its end, and ends once, with the last completion. -/
theorem dag_progress (d : Digests) (hplan : plan.Runnable) (start : Delivery)
    (hstart : start.input.starts? = some (plan, .compiled)) (is : List Delivery)
    (hreports : ∀ i ∈ is, i.input.isReport = true)
    (horder : ∀ st ∈ (machine d).run .empty (start :: is), ∀ x, st.before = .active x →
      x.startsInOrder st.input.input = true) :
    (∃ x, (machine d).last .empty (start :: is) = .active x ∧
        Progress plan (contents ((machine d).emitted .empty (start :: is))) x) ∧
      ∀ st ∈ (machine d).run .empty (start :: is), StepsInOrder plan st := by
  obtain ⟨y, out, hstep, hopens, hyp, hmode, hout⟩ := @exists_opening d plan hplan start hstart
  have hopening := @advances_of_opens d y start.now plan start.input hopens hplan hyp hmode
  have hbefore : Told plan (openingFacts y) y := by
    refine ⟨fun t n => ?_, ?_⟩
    · rw [if_neg fun h => h.2 (phase_of_opens hopens t)]
      rfl
    · rw [if_neg (not_finished_of_opens hopens hplan)]
      rfl
  have hfirst := told_record hbefore hopening
  rw [← hout] at hfirst
  rw [Machine.run_cons_some hstep] at horder
  have hadmits : ∀ st ∈ (machine d).run (.active (y.record (dispatchMessages d y start.now))) is,
      ReportedInOrder st.before st.input := fun st hst =>
    ⟨hreports _ (Machine.input_mem_of_mem_run hst), horder st (List.mem_cons_of_mem _ hst)⟩
  rw [Machine.emitted, Machine.run_cons_some hstep, Machine.last_cons_some hstep,
    List.flatMap_cons, List.forall_mem_cons]
  refine ⟨?_, ⟨?_, ?_⟩, stepsInOrder_run hplan hopening.onCourse hadmits⟩
  · obtain ⟨x, hlast, hx, htold⟩ := told_last hplan hopening.onCourse hfirst hadmits
    exact ⟨x, hlast, progress_of_told hplan hx htold⟩
  · intro a ha p hp
    rw [hout, dispatched_append, List.mem_append] at ha
    rcases ha with ha | ha
    · cases ha
    · exact ⟨_, rfl, parents_of_dispatched hopening ha hp⟩
  · intro hend
    rw [hout, ← mem_runEvents rfl, runEvents_append, runEvents_dispatchMessages,
      List.append_nil] at hend
    simp [openingFacts, runEvents, WorkflowEvent.stepId?] at hend

/-- A diamond. -/
def diamond : ExecutionPlan :=
  planOf [workerStep "top", workerStep "left", workerStep "right", workerStep "bottom"]
    [("top", "left"), ("top", "right"), ("left", "bottom"), ("right", "bottom")]

theorem diamond_runnable : diamond.Runnable where
  steps := by simp [diamond, planOf]
  acyclic := by decide +kernel
  nodup := by decide +kernel
  edges := by decide +kernel
  unasked := by decide +kernel

/-- A run of it, one side reported repeatedly. -/
def diamondRun : List Delivery :=
  ⟨startOf diamond, "start", 0⟩ ::
    toldInOrder [.event (.stepStarted "top" 1), .event (.stepCompleted "top" 1 [] none),
      .event (.stepCompleted "right" 1 [] none), .event (.stepStarted "left" 1),
      .event (.stepCompleted "right" 1 [] none), .event (.stepCompleted "left" 1 [] none),
      .event (.stepStarted "bottom" 1), .event (.stepCompleted "bottom" 1 [] none)]

theorem diamond_progress :
    (∃ x, (machine plainDigests).last .empty diamondRun = .active x ∧
        Progress diamond (contents ((machine plainDigests).emitted .empty diamondRun)) x) ∧
      ∀ st ∈ (machine plainDigests).run .empty diamondRun, StepsInOrder diamond st := by
  have horder : ((machine plainDigests).run .empty diamondRun).all (fun st =>
      st.before.isActive.all fun x => x.startsInOrder st.input.input) = true := by
    decide +kernel
  refine dag_progress plainDigests diamond_runnable ⟨startOf diamond, "start", 0⟩ rfl _
    (by decide +kernel) ?_
  intro st hst x hx
  have hin := List.all_eq_true.mp horder st hst
  rw [hx] at hin
  exact hin

def sideBySide : ExecutionPlan := planOf [workerStep "left", workerStep "right"] []

/-- Each report of two steps side by side, the first start after its completion. -/
def startedLate : List Delivery :=
  toldInOrder [startOf sideBySide, .event (.stepCompleted "left" 1 [] none),
    .event (.stepStarted "left" 1), .event (.stepStarted "right" 1),
    .event (.stepCompleted "right" 1 [] none)]

/-- Every report arrived and was accepted, and the run never says that it completed. -/
theorem late_start_hides_the_end :
    sideBySide.Runnable ∧ (∀ i ∈ startedLate.tail, i.input.isReport = true) ∧
      (machine plainDigests).accepts .empty startedLate = true ∧
      completions (contents ((machine plainDigests).emitted .empty startedLate)) = 0 := by
  refine ⟨⟨by simp [sideBySide, planOf], ?_, ?_, ?_, ?_⟩, ?_, ?_, ?_⟩ <;> decide +kernel

end Aiwatcher.Engine
