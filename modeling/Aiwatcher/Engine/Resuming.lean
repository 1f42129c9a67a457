import Aiwatcher.Engine.Pausing

/-!
# Aiwatcher.Engine.Resuming

Pausing a run and resuming it: nothing goes out while it is paused, what became ready
goes out once with the resume, and the run has dispatched what it would have.
-/

namespace Aiwatcher.Engine

open Library List Option Execution

variable {d : Digests} {x y : Execution} {now : OffsetDateTime}

/-! ## Over both runs -/

variable {input : WorkflowMessage} {msgs : List WorkflowMessage}

theorem unscheduled_of_decided (hx : x.WellFormed) (hun : x.Unscheduled)
    (h : Decided d x now input msgs) : (x.record msgs).Unscheduled :=
  unscheduled_record hun fun _ _ hs => move_of_decided hx h hs

/-- **An input both runs take** leaves one the run the other would be. -/
theorem ahead_of_decided (h : Ahead d x y)
    (hin : input.isPauseOrResume = false) {msgs msgs' : List WorkflowMessage}
    (hx : Decided d x now input msgs) (hy : Decided d y now input msgs')
    (hkept : ∀ t s, x.step t = some s →
      Kept d x (x.record msgs) t (aboutStep t msgs) (aboutStep t msgs'))
    (hrun : runEvents msgs' = runEvents msgs) : Ahead d (x.record msgs) (y.record msgs') := by
  refine ahead_of_kept h hkept ?_ ?_ (unpaused_of_decided hy hin h.unpaused)
    (unscheduled_of_decided h.wellFormed h.unscheduled hx)
    (unscheduled_of_decided h.wellFormed' h.unscheduled' hy)
    (eager_of_decided h.wellFormed' h.unscheduled' h.eager h.unpaused hy)
  · rw [cancelling_record_of_runEvents, cancelling_record_of_runEvents, hrun, h.cancelling]
  · rw [state_record_of_runEvents, state_record_of_runEvents, hrun]
    cases ((runEvents msgs).filterMap WorkflowEvent.runState?).getLast? with
    | none => exact h.terminal
    | some r => rfl

/-- A pause holds nothing back when it lands: whatever was ready has gone out. -/
theorem ahead_of_paused (h : Ahead d x y) (hx : Decided d x now (.command .pauseExecution) msgs) :
    (∀ t s, x.step t = some s → Kept d x (x.record msgs) t (aboutStep t msgs) (aboutStep t [])) ∧
      Ahead d (x.record msgs) y := by
  cases hx with
  | pausedAlready _ => exact ⟨kept_of_silent, h⟩
  | paused hopen hp =>
    have hkept : ∀ t s, x.step t = some s → Kept d x (x.record [.event .executionPaused]) t
        (aboutStep t [.event .executionPaused]) (aboutStep t []) := by
      intro t s _
      have hbefore := holds_eq_false_of_unpaused hp t
      refine .same hbefore ?_ rfl
      by_contra hholds
      rw [Bool.not_eq_false] at hholds
      have hready : isReady (x.record [.event .executionPaused]) t = true :=
        isReady_of_holds hholds
      have hready : isReady x t = true := hready
      simp only [holds, Bool.and_eq_true, beq_iff_eq, Bool.not_eq_true'] at hholds
      have hmode : y.mode = .compiled := h.sameRun.mode.trans hholds.1.1.2
      have hnone := h.eager hmode (h.cancelling.trans hholds.1.2) t
      rw [h.isReady_eq, hready, hbefore] at hnone
      cases hnone
    refine ⟨hkept, ?_⟩
    have hafter := @ahead_of_kept d x y h [.event .executionPaused] [] hkept
    refine hafter h.cancelling ?_ h.unpaused ?_ h.unscheduled' h.eager
    · exact h.terminal.trans hopen
    · exact unscheduled_of_decided h.wellFormed h.unscheduled (@Decided.paused d x now hopen hp)
  | answered _ h => cases h
  | repeated _ h _ => cases h
  | finished _ h => cases h
  | failed _ h => cases h

theorem decided_resumeExecution (h : Decided d x now (.command .resumeExecution) msgs) :
    x.state.stateType = .paused ∧ msgs = .event .executionResumed ::
      dispatchMessages d { x with state := .of .running } now := by
  cases h with
  | resumed hp => exact ⟨hp, rfl⟩
  | answered _ h => cases h
  | repeated _ h _ => cases h
  | finished _ h => cases h
  | failed _ h => cases h

theorem aboutStep_resumed (hp : x.state.stateType = .paused) (t : String) :
    aboutStep t (.event .executionResumed ::
        dispatchMessages d { x with state := .of .running } now) =
      if x.holds t then x.firstDispatch d t now else [] := by
  rw [aboutStep_cons_of_ne (by simp [WorkflowMessage.stepId?, WorkflowEvent.stepId?]),
    aboutStep_dispatchMessages]
  refine if_congr ?_ rfl rfl
  have hready : isReady { x with state := .of .running } t = isReady x t := rfl
  simp [dispatches, holds, hp, hready, and_assoc]

theorem ahead_of_resumed (h : Ahead d x y) (hx : Decided d x now (.command .resumeExecution) msgs) :
    (∀ t s, x.step t = some s → Kept d x (x.record msgs) t (aboutStep t msgs) (aboutStep t [])) ∧
      Ahead d (x.record msgs) y := by
  obtain ⟨hp, hmsgs⟩ := decided_resumeExecution hx
  have hrun : runEvents msgs = [.executionResumed] := by
    have hrest := @runEvents_dispatchMessages d { x with state := .of .running } now
    rw [hmsgs]
    show .executionResumed :: runEvents (dispatchMessages d _ now) = _
    rw [hrest]
  have hstate : (x.record msgs).state = .of .running := by
    rw [state_record_of_runEvents, hrun]
    rfl
  have hkept : ∀ t s, x.step t = some s →
      Kept d x (x.record msgs) t (aboutStep t msgs) (aboutStep t []) := by
    intro t s _
    have hafter : (x.record msgs).holds t = false :=
      holds_eq_false_of_unpaused (by simp [hstate]) t
    cases hholds : x.holds t with
    | false =>
      refine .same hholds hafter ?_
      rw [hmsgs, aboutStep_resumed hp, hholds]
      exact .refl _
    | true =>
      refine .released hholds hafter ?_
      rw [hmsgs, aboutStep_resumed hp, hholds]
      exact alike_firstDispatch ⟨rfl, rfl, rfl⟩ t 0 now
  refine ⟨hkept, ?_⟩
  have hafter := @ahead_of_kept d x y h msgs [] hkept
  refine hafter ?_ ?_ h.unpaused (unscheduled_of_decided h.wellFormed h.unscheduled hx)
    h.unscheduled' h.eager
  · have hkeeps : (x.record msgs).cancelling = (x.cancelling || false) := by
      rw [cancelling_record_of_runEvents, hrun]
      rfl
    rw [record_nil, h.cancelling, hkeeps, Bool.or_false]
  · rw [record_nil, h.terminal, hp, hstate]
    rfl

/-! ## What a pause lets out -/

theorem executeStep_of_mem_dispatched {a : String × UInt32} (h : a ∈ dispatched msgs) :
    ∃ kind key, .command (.executeStep a.1 a.2 kind key) ∈ msgs := by
  obtain ⟨m, hm, hdispatch⟩ := mem_filterMap.mp h
  split at hdispatch
  · cases hdispatch
    exact ⟨_, _, hm⟩
  · cases hdispatch

theorem dispatched_of_paused (hx : x.WellFormed) (hp : x.state.stateType = .paused)
    (h : Decided d x now input msgs) (hin : input ≠ .command .resumeExecution)
    (hclean : x.pausesCleanly input = true) : dispatched msgs = [] := by
  refine eq_nil_iff_forall_not_mem.mpr fun a ha => ?_
  obtain ⟨kind, key, hm⟩ := executeStep_of_mem_dispatched ha
  obtain ⟨s, hs, hmove, hm⟩ := exists_move hx h hm rfl
  generalize aboutStep a.1 msgs = about at hmove hm
  cases hmove with
  | untouched => cases hm
  | dispatched _ _ _ _ hpaused _ => exact hin (hpaused hp)
  | @retried p _ hinput hplan _ _ =>
    -- a question that is asked again dispatches nothing
    rw [hinput] at hclean
    have hasks : x.plan.asksSomebody a.1 = true := hclean
    rw [ExecutionPlan.asksSomebody_of_step hplan] at hasks
    obtain ⟨spec, hspec⟩ := isSome_iff_exists.mp hasks
    simp [attemptMessages, hspec] at hm
  | answeredWorker hanswers hasks hmode _ =>
    have hresumes := resumesBy_of_answers hs hanswers
    rw [answerReschedules, hasks, hmode] at hresumes
    cases hanswers with
    | provided _ _ _ => simp [pausesCleanly, hresumes] at hclean
    | lapsed _ _ => simp [pausesCleanly, hresumes] at hclean
  | failedRetrying hinput hplan _ hretry =>
    rw [hinput] at hclean
    simp [pausesCleanly, retriesFailure, hs, hplan, hretry] at hclean
  | _ => simp at hm

/-- The steps a run has dispatched wait no more. -/
structure WaitsNoMore (said : List WorkflowMessage) (x : Execution) : Prop where
  wellFormed : x.WellFormed
  unscheduled : x.Unscheduled
  out : ∀ a ∈ dispatched said, ∀ s, x.step a.1 = some s → s.state.stateType ≠ .scheduled

theorem waitsNoMore_record {said msgs : List WorkflowMessage} (hx : WaitsNoMore said x)
    (hmove : ∀ t s, x.step t = some s → Move x now input t s (aboutStep t msgs)) :
    WaitsNoMore (said ++ msgs) (x.record msgs) := by
  refine ⟨wellFormed_record hx.wellFormed msgs, unscheduled_record hx.unscheduled hmove, ?_⟩
  intro a ha s' hs' hst
  obtain ⟨s, hs, rfl⟩ := exists_step_of_record hs'
  have hwas := scheduled_of_record hst
  rw [dispatched_append, mem_append] at ha
  rcases ha with ha | ha
  · exact hx.out a ha s hs hwas
  · obtain ⟨kind, key, hm⟩ := executeStep_of_mem_dispatched ha
    have hnil := untouched_of_move (hmove a.1 s hs) (hx.unscheduled a.1 s hs hwas).2 hst
    have habout := mem_aboutStep.mpr ⟨hm, rfl⟩
    rw [hnil] at habout
    cases habout

/-- The same of a run's history, from before it exists. -/
def WaitsNoMoreSoFar (said : List PendingMessage) : ExecutionState → Prop
  | .empty => said = []
  | .active x => WaitsNoMore (contents said) x

theorem waitsNoMore_last (d : Digests) (is : List Delivery) :
    WaitsNoMoreSoFar ((machine d).emitted .empty is) ((machine d).last .empty is) := by
  have hrun : WaitsNoMoreSoFar ([] ++ (machine d).emitted .empty is)
      ((machine d).last .empty is) := Machine.accum_run (M := machine d) WaitsNoMoreSoFar
    (fun _ _ => True)
    (by
      intro said state i out state' hP _ hstep
      rcases step_cases hstep with ⟨y, rfl, hopens, hout, rfl⟩ | ⟨y, rfl, hdecided, rfl⟩
      · have hsaid : said = [] := hP
        show WaitsNoMore (contents (said ++ out)) _
        rw [hsaid, nil_append, hout]
        have hfacts : WaitsNoMore (openingFacts y) y :=
          ⟨wellFormed_of_opens hopens, unscheduled_of_opens hopens, fun a ha => by cases ha⟩
        exact waitsNoMore_record hfacts fun t s hs => move_of_opens hopens hs
      · have hP : WaitsNoMore (contents said) y := hP
        show WaitsNoMore (contents (said ++ out)) _
        rw [contents, map_append]
        exact waitsNoMore_record hP fun t s hs => move_of_decided hP.wellFormed hdecided hs)
    (h := []) (s := .empty) rfl (fun _ _ => trivial)
  rwa [nil_append] at hrun

/-! ## Over whole runs -/

/-- Inputs without the pauses and the resumes. -/
def unpaused (is : List Delivery) : List Delivery := is.filter fun i => !i.input.isPauseOrResume

/-- A step of a run that leaves a pause which holds work back only by resuming. -/
def EndsPauseByResume (st : Step ExecutionState Delivery PendingMessage) : Prop :=
  ∀ x x', st.before = .active x → st.after = .active x' → (∃ t, x.holds t = true) →
    st.input.input = .command .resumeExecution ∨ x'.state.stateType = .paused

/-- Two runs, their histories and their states: the second is what the first would be, and
has said what the pause of the first owes. -/
def Compared (d : Digests) (said : List PendingMessage) (state : ExecutionState)
    (said' : List PendingMessage) (state' : ExecutionState) : Prop :=
  (said = [] ∧ state = .empty ∧ said' = [] ∧ state' = .empty) ∨
    ∃ x y, state = .active x ∧ state' = .active y ∧ Ahead d x y ∧
      ∀ a, (dispatched (contents said')).count a =
        (dispatched (contents said)).count a + owed d x a

theorem account_of_kept {said said' : List PendingMessage} {out out' : Decision}
    (hsaid : ∀ a, (dispatched (contents said')).count a =
      (dispatched (contents said)).count a + owed d x a)
    (hkept : ∀ t s, x.step t = some s → Kept d x (x.record (contents out)) t
      (aboutStep t (contents out)) (aboutStep t (contents out')))
    (hnone : ∀ t, x.step t = none →
      aboutStep t (contents out) = [] ∧ aboutStep t (contents out') = []) :
    ∀ a, (dispatched (contents (said' ++ out'))).count a =
      (dispatched (contents (said ++ out))).count a + owed d (x.record (contents out)) a := by
  rintro ⟨t, n⟩
  have happend : ∀ l l' : List PendingMessage, contents (l ++ l') = contents l ++ contents l' :=
    fun l l' => map_append
  rw [happend, happend, dispatched_append, dispatched_append, count_append, count_append,
    hsaid, count_dispatched (contents out), count_dispatched (contents out')]
  cases hs : x.step t with
  | none =>
    have hzero : ∀ z : Execution, z.step t = none → owed d z (t, n) = 0 := by
      intro z hz
      simp [owed, holds, isReady, hz]
    obtain ⟨hnil, hnil'⟩ := hnone t hs
    rw [hnil, hnil', hzero x hs, hzero _ (by rw [step_record, hs]; rfl)]
    rfl
  | some s =>
    have hcount := count_of_kept (sameRun_record x (contents out)) (hkept t s hs) n
    omega

theorem aboutStep_eq_nil_of_decided (hx : x.WellFormed) (h : Decided d x now input msgs)
    {t : String} (hs : x.step t = none) : aboutStep t msgs = [] := by
  refine aboutStep_of_forall_ne fun m hm ht => ?_
  obtain ⟨s, hsome⟩ := exists_step_of_mem hx h hm ht
  rw [hs] at hsome
  cases hsome

theorem ahead_of_opens {input : WorkflowMessage} (h : Opens input x) :
    Ahead d (x.record (dispatchMessages d x now)) (x.record (dispatchMessages d x now)) := by
  have hstate : (x.record (dispatchMessages d x now)).state = x.state := by
    rw [state_record_of_runEvents, runEvents_dispatchMessages]
    rfl
  have hpaused : (x.record (dispatchMessages d x now)).state.stateType ≠ .paused := by
    rw [hstate]
    cases h
    exact fun hp => by cases hp
  have hunscheduled := unscheduled_record (unscheduled_of_opens h)
    (fun t s hs => @move_of_opens d x now _ h t s hs)
  refine ⟨⟨rfl, rfl, rfl⟩, rfl, rfl, hpaused, wellFormed_record (wellFormed_of_opens h) _,
    wellFormed_record (wellFormed_of_opens h) _, hunscheduled, hunscheduled, eager_of_opens h,
    ?_, ?_⟩
  · intro t s s' _ hs hs'
    cases hs.symm.trans hs'
    rfl
  · intro t s s' hholds _ _
    rw [holds_eq_false_of_unpaused hpaused] at hholds
    cases hholds

/-- **Pausing costs nothing**: a run all of whose inputs are accepted, with its pauses and
without them, has dispatched the same attempts, save what the pause it is in holds back. -/
theorem compared_last (d : Digests) {is : List Delivery}
    (hclean : ∀ st ∈ (machine d).run .empty is, ∀ x, st.before = .active x →
      x.state.stateType = .paused → x.pausesCleanly st.input.input = true)
    (hresumes : ∀ st ∈ (machine d).run .empty is, EndsPauseByResume st)
    (haccepts : (machine d).accepts .empty is = true)
    (haccepts' : (machine d).accepts .empty (unpaused is) = true) :
    Compared d ((machine d).emitted .empty is) ((machine d).last .empty is)
      ((machine d).emitted .empty (unpaused is)) ((machine d).last .empty (unpaused is)) := by
  have hrun := @Machine.compare_run _ _ _ (machine d) (fun i => i.input.isPauseOrResume)
    (Compared d)
    (fun st => (∀ x, st.before = .active x → x.state.stateType = .paused →
      x.pausesCleanly st.input.input = true) ∧ EndsPauseByResume st)
    ?_ ?_ [] [] .empty .empty is (Or.inl ⟨rfl, rfl, rfl, rfl⟩)
    (fun st hst => ⟨hclean st hst, hresumes st hst⟩) haccepts haccepts'
  · exact hrun
  · -- a pause or a resume
    rintro said said' state' st (⟨-, hempty, -, -⟩ | ⟨x, y, hx, rfl, hahead, hsaid⟩) - halone hstep
    · rw [hempty] at hstep
      rcases step_cases hstep with ⟨_, -, hopens, -⟩ | ⟨_, hactive, -⟩
      · generalize st.input.input = input at halone hopens
        cases hopens
        cases halone
      · cases hactive
    · rw [hx] at hstep
      rcases step_cases hstep with ⟨_, hempty, -⟩ | ⟨_, hactive, hdecided, hafter⟩
      · cases hempty
      · cases hactive
        have hboth : (∀ t s, x.step t = some s → Kept d x (x.record (contents st.out)) t
            (aboutStep t (contents st.out)) (aboutStep t [])) ∧
              Ahead d (x.record (contents st.out)) y := by
          generalize st.input.input = input at halone hdecided
          unfold WorkflowMessage.isPauseOrResume at halone
          split at halone
          · exact ahead_of_paused hahead hdecided
          · exact ahead_of_resumed hahead hdecided
          · cases halone
        have haccount := @account_of_kept d x said said' st.out [] hsaid hboth.1 fun t hs =>
          ⟨aboutStep_eq_nil_of_decided hahead.wellFormed hdecided hs, rfl⟩
        rw [append_nil] at haccount
        exact Or.inr ⟨_, y, hafter, rfl, hboth.2, haccount⟩
  · -- an input both runs take
    rintro said said' state' st out' state'' (⟨rfl, hempty, rfl, rfl⟩ | ⟨x, y, hx, rfl, hahead, hsaid⟩)
      ⟨hclean, hresumes⟩ halone hstep hstep'
    · rw [hempty, hstep'] at hstep
      obtain ⟨rfl, rfl⟩ := Prod.mk.inj (some.inj hstep)
      rcases step_cases hstep' with ⟨x, -, hopens, -, hafter⟩ | ⟨_, hactive, -⟩
      · refine Or.inr ⟨_, _, hafter, hafter, ahead_of_opens hopens, fun a => ?_⟩
        have hnone := holds_eq_false_of_unpaused (@ahead_of_opens d x st.input.now _ hopens).unpaused
        rw [owed, if_neg (by simp [hnone])]
        rfl
      · cases hactive
    · rw [hx] at hstep
      rcases step_cases hstep with ⟨_, hempty, -⟩ | ⟨_, hactive, hdecided, hafter⟩
      · cases hempty
      cases hactive
      rcases step_cases hstep' with ⟨_, hempty, -⟩ | ⟨_, hactive, hdecided', rfl⟩
      · cases hempty
      cases hactive
      have hends : ∀ t, x.holds t = true → (x.record (contents st.out)).state.stateType = .paused := by
        intro t hholds
        rcases hresumes x _ hx hafter ⟨t, hholds⟩ with hresume | hpaused
        · rw [hresume] at halone
          cases halone
        · exact hpaused
      obtain ⟨hkept, hrun⟩ := kept_of_decided hahead halone hdecided hdecided' (hclean x hx) hends
      refine Or.inr ⟨_, _, hafter, rfl, ahead_of_decided hahead halone hdecided hdecided' hkept hrun,
        ?_⟩
      refine account_of_kept hsaid hkept fun t hs => ?_
      refine ⟨aboutStep_eq_nil_of_decided hahead.wellFormed hdecided hs,
        aboutStep_eq_nil_of_decided hahead.wellFormed' hdecided' ?_⟩
      cases hs' : y.step t with
      | none => rfl
      | some s' =>
        obtain ⟨s, hsome⟩ := hahead.exists_step' hs'
        rw [hs] at hsome
        cases hsome

theorem resume_accepted (d : Digests) {i : Delivery} (hin : i.input = .command .resumeExecution)
    (hp : x.state.stateType = .paused) :
    ∃ out, (machine d).step (.active x) i = some (out, .active (x.record (contents out))) ∧
      Decided d x i.now (.command .resumeExecution) (contents out) := by
  have haccepted : ∃ p, (machine d).step (.active x) i = some p := by
    simp [machine, decide, hin, decideActive, decideResume, hp]
  obtain ⟨⟨out, state'⟩, hstep⟩ := haccepted
  rcases step_cases hstep with ⟨_, hempty, -⟩ | ⟨_, hactive, hdecided, rfl⟩
  · cases hempty
  · cases hactive
    exact ⟨out, hstep, hin ▸ hdecided⟩

theorem count_resumed (d : Digests) {js : List Delivery} {i : Delivery}
    (hin : i.input = .command .resumeExecution)
    (hx : (machine d).last .empty js = .active x) (hp : x.state.stateType = .paused)
    (hnodup : x.plan.ids.Nodup) {t : String} (hholds : x.holds t = true)
    (hasks : x.plan.asksSomebody t = false) :
    (dispatched (contents ((machine d).emitted .empty (js ++ [i])))).count (t, 1) = 1 := by
  obtain ⟨out, hstep, hdecided⟩ := resume_accepted d hin hp
  have hbefore := waitsNoMore_last d js
  rw [hx] at hbefore
  have hready := isReady_of_holds hholds
  obtain ⟨s, hs⟩ : ∃ s, x.step t = some s := by
    cases hs : x.step t with
    | none => simp [isReady, hs] at hready
    | some s => exact ⟨s, rfl⟩
  have hfresh := ((isReady_iff hs).mp hready).1
  have hzero : (dispatched (contents ((machine d).emitted .empty js))).count (t, 1) = 0 :=
    count_eq_zero.mpr fun hmem => hbefore.out _ hmem s hs hfresh
  have hemitted : (machine d).emitted .empty (js ++ [i]) = (machine d).emitted .empty js ++ out := by
    rw [Machine.emitted, Machine.run_append, hx, Machine.run_cons_some hstep, flatMap_append]
    simp [Machine.emitted, Machine.run]
  have hmem : t ∈ x.plan.ids := (hbefore.wellFormed.planned t).mp (by simp [hs])
  obtain ⟨p, hplan⟩ := ExecutionPlan.mem_ids_iff_step.mp hmem
  rw [ExecutionPlan.asksSomebody_of_step hplan, isSome_eq_false_iff, isNone_iff_eq_none] at hasks
  obtain ⟨-, hout⟩ := decided_resumeExecution hdecided
  rw [hemitted, contents, map_append, dispatched_append, count_append]
  show (dispatched (contents _)).count (t, 1) + (dispatched (contents out)).count (t, 1) = 1
  rw [hzero, count_dispatched, hout, aboutStep_resumed hp, if_pos hholds, firstDispatch,
    count_eq_one_of_mem hnodup hmem, replicate_one, flatten_singleton,
    scheduleMessages_of_step hplan, attemptMessages, hasks]
  simp [dispatched]

/-- **Pause holds back work without losing any**: in every run that meets, while it is
paused, no retried failure, no answer to a worker's question and no late start of a parent
of a step held back, a pause lets nothing out; a resume dispatches what became ready, each
step for the first time; and a run whose pauses end by resuming has dispatched what it
would have without them. -/
theorem pause_loses_nothing (d : Digests) (is : List Delivery)
    (hnodup : ∀ st ∈ (machine d).run .empty is, ∀ x, st.before = .active x → x.plan.ids.Nodup)
    (hclean : ∀ st ∈ (machine d).run .empty is, ∀ x, st.before = .active x →
      x.state.stateType = .paused → x.pausesCleanly st.input.input = true) :
    (∀ st ∈ (machine d).run .empty is, ∀ x, st.before = .active x → x.state.stateType = .paused →
        st.input.input ≠ .command .resumeExecution → dispatched (contents st.out) = []) ∧
      (∀ js i ks, is = js ++ i :: ks → i.input = .command .resumeExecution →
        ∀ x, (machine d).last .empty js = .active x → x.state.stateType = .paused →
        ∀ t, x.holds t = true → x.plan.asksSomebody t = false →
        (dispatched (contents ((machine d).emitted .empty (js ++ [i])))).count (t, 1) = 1) ∧
      ((machine d).accepts .empty is = true → (machine d).accepts .empty (unpaused is) = true →
        (∀ st ∈ (machine d).run .empty is, EndsPauseByResume st) →
        (∀ x, (machine d).last .empty is = .active x → x.state.stateType ≠ .paused) →
        (dispatched (contents ((machine d).emitted .empty is))).Perm
          (dispatched (contents ((machine d).emitted .empty (unpaused is))))) := by
  refine ⟨?_, ?_, ?_⟩
  · intro st hst x hx hp hin
    obtain ⟨hwf, hdecided, -⟩ := decided_of_mem_run hst hx
    exact dispatched_of_paused hwf hp hdecided hin (hclean st hst x hx hp)
  · rintro js i ks rfl hin x hx hp t hholds hasks
    obtain ⟨out, hstep, -⟩ := resume_accepted d hin hp
    let st : Step ExecutionState Delivery PendingMessage :=
      ⟨.active x, i, out, .active (x.record (contents out))⟩
    refine count_resumed d hin hx hp (hnodup st ?_ x rfl) hholds hasks
    rw [Machine.run_append, hx, Machine.run_cons_some hstep]
    exact List.mem_append_right _ List.mem_cons_self
  · intro haccepts haccepts' hresumes hend
    have hcompared := compared_last d hclean hresumes haccepts haccepts'
    rw [List.perm_iff_count]
    rcases hcompared with ⟨hnil, -, hnil', -⟩ | ⟨x, y, hx, -, -, hsaid⟩
    · rw [hnil, hnil']
      exact fun _ => rfl
    · intro a
      rw [hsaid a, owed, if_neg (by simp [holds_eq_false_of_unpaused (hend x hx)]), Nat.add_zero]

/-- A chain of two steps, paused while the first one works. -/
def pausedInTime : List Delivery :=
  toldInOrder [startOf (planOf [workerStep "first", workerStep "second"] [("first", "second")]),
    .event (.stepStarted "first" 1), .command .pauseExecution,
    .event (.stepCompleted "first" 1 [] none), .command .resumeExecution,
    .event (.stepStarted "second" 1), .event (.stepCompleted "second" 1 [] none)]

theorem endsPauseByResume_of_any {st : Step ExecutionState Delivery PendingMessage}
    (h : (st.input.input.name == "resume_execution" && st.input.input.isPauseOrResume ||
      !st.before.isActive.any (·.state.stateType == .paused) ||
      st.after.isActive.any (·.state.stateType == .paused)) = true) : EndsPauseByResume st := by
  rintro x x' hx hx' ⟨t, hholds⟩
  have hp : x.state.stateType = .paused := by
    simp only [holds, Bool.and_eq_true, beq_iff_eq] at hholds
    exact hholds.1.1.1
  simp only [hx, hx', ExecutionState.isActive, any_some, hp, Bool.or_eq_true,
    Bool.and_eq_true, beq_iff_eq, beq_self_eq_true, Bool.not_true, Bool.false_eq_true,
    or_false] at h
  rcases h with ⟨hname, hpause⟩ | hp'
  · left
    generalize st.input.input = input at hname hpause
    unfold WorkflowMessage.isPauseOrResume at hpause
    split at hpause
    · simp [WorkflowMessage.name, WorkflowCommand.name] at hname
    · rfl
    · cases hpause
  · exact Or.inr hp'

/-- The pause costs that run nothing: it dispatches the two attempts it would have. -/
theorem pausedInTime_loses_nothing :
    (dispatched (contents ((machine plainDigests).emitted .empty pausedInTime))).Perm
      (dispatched (contents ((machine plainDigests).emitted .empty (unpaused pausedInTime)))) := by
  have hrun : ((machine plainDigests).run .empty pausedInTime).all (fun st =>
      st.before.isActive.all fun x => Decidable.decide x.plan.ids.Nodup &&
        (!(x.state.stateType == .paused) || x.pausesCleanly st.input.input)) = true := by
    decide +kernel
  have hends : ((machine plainDigests).run .empty pausedInTime).all (fun st =>
      st.input.input.name == "resume_execution" && st.input.input.isPauseOrResume ||
        !st.before.isActive.any (·.state.stateType == .paused) ||
        st.after.isActive.any (·.state.stateType == .paused)) = true := by
    decide +kernel
  have hlast : ((machine plainDigests).last .empty pausedInTime).isActive.all
      (fun x => !(x.state.stateType == .paused)) = true := by
    decide +kernel
  have hone : ∀ st ∈ (machine plainDigests).run .empty pausedInTime, ∀ x, st.before = .active x →
      x.plan.ids.Nodup ∧
        (x.state.stateType = .paused → x.pausesCleanly st.input.input = true) := by
    intro st hst x hx
    have hone := List.all_eq_true.mp hrun st hst
    rw [hx] at hone
    simp only [ExecutionState.isActive, Option.all_some, Bool.and_eq_true, decide_eq_true_eq] at hone
    exact ⟨hone.1, fun hp => by simpa [hp] using hone.2⟩
  refine (pause_loses_nothing plainDigests pausedInTime (fun st hst x hx => (hone st hst x hx).1)
    fun st hst x hx => (hone st hst x hx).2).2.2 (by decide +kernel) (by decide +kernel) ?_ ?_
  · exact fun st hst => endsPauseByResume_of_any (List.all_eq_true.mp hends st hst)
  · intro x hx hp
    rw [hx] at hlast
    simp [ExecutionState.isActive, hp] at hlast

/-- A worker's attempt fails for a while, and the run is paused by then. -/
def pausedRetry : List Delivery :=
  toldInOrder [startOf (planOf [workerStep "work"] []), .event (.stepStarted "work" 1),
    .command .pauseExecution, .event (.stepFailed "work" 1 ⟨.transient, "timed out"⟩)]

/-- The paused run dispatches the next attempt. -/
theorem failure_dispatches_while_paused :
    ∃ st ∈ (machine plainDigests).run .empty pausedRetry,
      ∃ x, st.before = .active x ∧ x.state.stateType = .paused ∧
        st.input.input.isPauseOrResume = false ∧ dispatched (contents st.out) ≠ [] := by
  have hrun : ((machine plainDigests).run .empty pausedRetry).any (fun st =>
      st.before.isActive.any fun x => x.state.stateType == .paused &&
        (!st.input.input.isPauseOrResume && !(dispatched (contents st.out)).isEmpty)) = true := by
    decide +kernel
  obtain ⟨st, hst, x, hbefore, hall⟩ := exists_active_of_any hrun
  simp only [Bool.and_eq_true, beq_iff_eq, Bool.not_eq_true', List.isEmpty_eq_false_iff] at hall
  exact ⟨st, hst, x, hbefore, hall⟩

end Aiwatcher.Engine
