import Aiwatcher.Engine.Ready

/-!
# Aiwatcher.Engine.Ahead

What of a run does not depend on when its steps went out.  Two runs that dispatch the
same step at different moments give it another cache key (it is taken from what its
parents had recorded by then) and another deadline (it is counted from the clock), and
nothing else: `timeless` forgets the two, and folding commutes with forgetting.

A run that is paused and resumed, beside the run it would have been (`Ahead`): the second
has dispatched what the pause of the first holds back, and differs from it in nothing else
but the times.
-/

namespace Aiwatcher.Engine

open StepState

/-- A question without the deadline it was given. -/
def InputRequest.undated (request : InputRequest) : InputRequest := { request with deadline := none }

/-- A fact without the cache key or deadline it carries. -/
def WorkflowEvent.timeless : WorkflowEvent → WorkflowEvent
  | .stepScheduled id attempt kind _ => .stepScheduled id attempt kind none
  | .inputRequested id attempt request => .inputRequested id attempt request.undated
  | event => event

def WorkflowMessage.timeless : WorkflowMessage → WorkflowMessage
  | .event e => .event e.timeless
  | m => m

/-- A step without the cache key and the deadline it was given. -/
def StepState.timeless (s : StepState) : StepState :=
  { s with cacheKey := none, awaiting := s.awaiting.map InputRequest.undated }

/-- The same messages, but for when they were said. -/
def Alike (msgs msgs' : List WorkflowMessage) : Prop :=
  msgs'.map WorkflowMessage.timeless = msgs.map WorkflowMessage.timeless

theorem Alike.refl (msgs : List WorkflowMessage) : Alike msgs msgs := rfl

theorem Alike.cons {msgs msgs' : List WorkflowMessage} (m : WorkflowMessage)
    (h : Alike msgs msgs') : Alike (m :: msgs) (m :: msgs') := congrArg (_ :: ·) h

/-! ## What is remembered -/

section remembered

variable {s s' : StepState} (h : s'.timeless = s.timeless)

include h

theorem stepId_of_timeless : s'.stepId = s.stepId := by
  have hid := congrArg StepState.stepId h
  exact hid

theorem state_of_timeless : s'.state = s.state := by
  have hstate := congrArg StepState.state h
  exact hstate

theorem currentAttempt_of_timeless : s'.currentAttempt = s.currentAttempt := by
  have hcurrent := congrArg currentAttempt h
  exact hcurrent

theorem attempts_of_timeless : s'.attempts = s.attempts := by
  have hattempts := congrArg StepState.attempts h
  exact hattempts

theorem awaiting_of_timeless :
    s'.awaiting.map InputRequest.undated = s.awaiting.map InputRequest.undated := by
  have hawaiting := congrArg StepState.awaiting h
  exact hawaiting

end remembered

/-! ## Folding forgets nothing else -/

theorem undated_undated : InputRequest.undated ∘ InputRequest.undated = InputRequest.undated := rfl

variable (s : StepState)

/-- Folding a fact forgets what the state forgets, -/
theorem timeless_apply (e : WorkflowEvent) :
    (s.timeless.apply e).timeless = (s.apply e).timeless := by
  cases e <;>
    simp [timeless, StepState.apply, pushAttempt, undated_undated]

theorem apply_timeless (e : WorkflowEvent) :
    (s.apply e.timeless).timeless = (s.apply e).timeless := by
  cases e <;> rfl

theorem timeless_record (msgs : List WorkflowMessage) :
    (s.timeless.record msgs).timeless = (s.record msgs).timeless := by
  induction msgs generalizing s with
  | nil => exact timeless_apply s .executionStarted
  | cons m ms ih =>
    cases m with
    | event e =>
      rw [record_cons_event, record_cons_event, ← ih, timeless_apply, ih]
    | command c => exact ih s
    | hosted m => exact ih s

theorem record_timeless (msgs : List WorkflowMessage) :
    (s.record (msgs.map WorkflowMessage.timeless)).timeless = (s.record msgs).timeless := by
  induction msgs generalizing s with
  | nil => rfl
  | cons m ms ih =>
    cases m with
    | event e =>
      rw [record_cons_event, ← ih, ← timeless_record (s.apply e), ← apply_timeless,
        timeless_record]
      rfl
    | command c => exact ih s
    | hosted m => exact ih s

/-- **Steps that are the same but for their times stay so** under messages that are. -/
theorem timeless_record_congr {s s' : StepState} {msgs msgs' : List WorkflowMessage}
    (hs : s'.timeless = s.timeless) (h : Alike msgs msgs') :
    (s'.record msgs').timeless = (s.record msgs).timeless := by
  rw [← record_timeless s' msgs', h, record_timeless, ← timeless_record, hs, timeless_record]

open Library List Option

/-! ## What a pause holds back -/

/-- Whether a pause holds step `t` back: without it the step would have been dispatched. -/
def Execution.holds (x : Execution) (t : String) : Bool :=
  x.state.stateType == .paused && x.mode == .compiled && !x.cancelling && isReady x t

/-- What a dispatch says about a step that is ready. -/
def Execution.firstDispatch (d : Digests) (x : Execution) (t : String) (now : OffsetDateTime) :
    List WorkflowMessage :=
  (List.replicate (x.plan.ids.count t) (scheduleMessages d x t 1 now)).flatten

variable {d : Digests} {x y : Execution} {now : OffsetDateTime}

theorem holds_eq_false_of_unpaused (h : x.state.stateType ≠ .paused) (t : String) :
    x.holds t = false := by
  simp [Execution.holds, h]

theorem isReady_of_holds {t : String} (h : x.holds t = true) : isReady x t = true := by
  rw [Execution.holds, Bool.and_eq_true] at h
  exact h.2

theorem alike_scheduleMessages (h : SameRun x y) (t : String) (n : UInt32)
    (now now' : OffsetDateTime) :
    Alike (scheduleMessages d x t n now) (scheduleMessages d y t n now') := by
  unfold scheduleMessages
  rw [h.plan, h.executionId]
  cases x.plan.step t with
  | none => rfl
  | some p =>
    show Alike (attemptMessages _ _ _ _ _ _) (attemptMessages _ _ _ _ _ _)
    unfold attemptMessages
    cases p.runtime.question <;> rfl

theorem alike_firstDispatch (h : SameRun x y) (t : String) (now now' : OffsetDateTime) :
    Alike (x.firstDispatch d t now) (y.firstDispatch d t now') := by
  have hone := @alike_scheduleMessages d x y h t 1 now now'
  rw [Alike] at hone ⊢
  unfold Execution.firstDispatch
  rw [h.plan, map_flatten, map_flatten, map_replicate, map_replicate, hone]

theorem dispatched_of_alike {msgs msgs' : List WorkflowMessage} (h : Alike msgs msgs') :
    dispatched msgs' = dispatched msgs := by
  have hforget : ∀ ms : List WorkflowMessage,
      dispatched (ms.map WorkflowMessage.timeless) = dispatched ms := by
    intro ms
    unfold dispatched
    rw [filterMap_map]
    refine filterMap_congr fun m _ => ?_
    cases m <;> rfl
  rw [← hforget msgs', h, hforget]

theorem record_firstDispatch (hx : x.WellFormed) {t : String} {s₀ : StepState}
    (hs₀ : x.step t = some s₀) (s : StepState) :
    ((s.record (x.firstDispatch d t now)).state.stateType = .pending ∨
        (s.record (x.firstDispatch d t now)).state.stateType = .awaitingInput) ∧
      (s.record (x.firstDispatch d t now)).currentAttempt = 1 := by
  obtain ⟨p, hp⟩ := mem_ids_of_step hx hs₀
  have hmem : t ∈ x.plan.ids := ExecutionPlan.mem_ids_iff_step.mpr ⟨p, hp⟩
  obtain ⟨again, hagain⟩ := Nat.exists_eq_add_of_lt (count_pos_iff.mpr hmem)
  rw [Nat.zero_add] at hagain
  rw [Execution.firstDispatch, hagain, flatten_replicate_succ, record_append,
    scheduleMessages_of_step hp]
  refine ⟨state_record_attemptMessages, ?_⟩
  unfold attemptMessages
  cases p.runtime.question <;> rfl

/-! ## The run that was never paused -/

/-- `y` is the run `x` would be if nothing had paused it. -/
structure Ahead (d : Digests) (x y : Execution) : Prop where
  sameRun : SameRun x y
  cancelling : y.cancelling = x.cancelling
  terminal : y.state.stateType.isTerminal = x.state.stateType.isTerminal
  unpaused : y.state.stateType ≠ .paused
  wellFormed : x.WellFormed
  wellFormed' : y.WellFormed
  unscheduled : x.Unscheduled
  unscheduled' : y.Unscheduled
  eager : y.Eager
  same : ∀ t s s', x.holds t = false → x.step t = some s → y.step t = some s' →
    s'.timeless = s.timeless
  ahead : ∀ t s s', x.holds t = true → x.step t = some s → y.step t = some s' →
    s'.timeless = (s.record (x.firstDispatch d t 0)).timeless

namespace Ahead

variable (h : Ahead d x y) {t : String} {s s' : StepState}

include h

theorem exists_step (hs : x.step t = some s) : ∃ s', y.step t = some s' := by
  have hmem := (h.wellFormed.planned t).mp (by simp [hs])
  rw [← h.sameRun.plan] at hmem
  exact isSome_iff_exists.mp ((h.wellFormed'.planned t).mpr hmem)

theorem exists_step' (hs : y.step t = some s') : ∃ s, x.step t = some s := by
  have hmem := (h.wellFormed'.planned t).mp (by simp [hs])
  rw [h.sameRun.plan] at hmem
  exact isSome_iff_exists.mp ((h.wellFormed.planned t).mpr hmem)

theorem of_holds (hholds : x.holds t = true) (hs : x.step t = some s) (hs' : y.step t = some s') :
    (s.state.stateType = .scheduled ∧ s.currentAttempt = 0 ∧ s.awaiting = none) ∧
      (s'.state.stateType = .pending ∨ s'.state.stateType = .awaitingInput) ∧
      s'.currentAttempt = 1 := by
  have hst := ((isReady_iff hs).mp (isReady_of_holds hholds)).1
  have hout := @record_firstDispatch d x 0 h.wellFormed t s hs s
  have hsame := h.ahead t s s' hholds hs hs'
  have hstate : s'.state = (s.record (x.firstDispatch d t 0)).state :=
    state_of_timeless hsame
  have hcurrent : s'.currentAttempt = (s.record (x.firstDispatch d t 0)).currentAttempt :=
    currentAttempt_of_timeless hsame
  rw [hstate, hcurrent]
  exact ⟨⟨hst, h.unscheduled t s hs hst⟩, hout⟩

/-- An input that names an attempt both runs are on names no step held back. -/
theorem not_holds_of_current (hs : x.step t = some s) (hs' : y.step t = some s')
    (hcurrent : s.currentAttempt = s'.currentAttempt) : x.holds t = false := by
  by_contra hholds
  rw [Bool.not_eq_false] at hholds
  obtain ⟨⟨-, hzero, -⟩, -, hone⟩ := h.of_holds hholds hs hs'
  rw [hzero, hone] at hcurrent
  cases hcurrent

omit h in
theorem not_holds_of_state (hs : x.step t = some s) (hst : s.state.stateType ≠ .scheduled) :
    x.holds t = false := by
  by_contra hholds
  rw [Bool.not_eq_false] at hholds
  exact hst ((isReady_iff hs).mp (isReady_of_holds hholds)).1

theorem not_holds_of_open (hs : x.step t = some s) (hopen : s.awaiting ≠ none) :
    x.holds t = false :=
  not_holds_of_state hs fun hst => hopen (h.unscheduled t s hs hst).2

/-- The runs agree on what has completed, -/
theorem hasCompleted_eq (t : String) : y.hasCompleted t = x.hasCompleted t := by
  unfold Execution.hasCompleted
  cases hs : x.step t with
  | none =>
    cases hs' : y.step t with
    | none => rfl
    | some s' =>
      obtain ⟨s, hsome⟩ := h.exists_step' hs'
      rw [hs] at hsome
      cases hsome
  | some s =>
    obtain ⟨s', hs'⟩ := h.exists_step hs
    rw [hs', any_some, any_some]
    cases hholds : x.holds t with
    | false =>
      have hstate : s'.state = s.state :=
        state_of_timeless (h.same t s s' hholds hs hs')
      rw [hstate]
    | true =>
      obtain ⟨⟨hst, -⟩, hst', -⟩ := h.of_holds hholds hs hs'
      rw [hst]
      rcases hst' with hst' | hst' <;> rw [hst'] <;> rfl

/-- and on what still waits, but for what the pause holds back. -/
theorem scheduled_eq (t : String) :
    (y.step t).any (·.state.stateType == .scheduled) =
      ((x.step t).any (·.state.stateType == .scheduled) && !x.holds t) := by
  cases hs : x.step t with
  | none =>
    cases hs' : y.step t with
    | none => rfl
    | some s' =>
      obtain ⟨s, hsome⟩ := h.exists_step' hs'
      rw [hs] at hsome
      cases hsome
  | some s =>
    obtain ⟨s', hs'⟩ := h.exists_step hs
    rw [hs', any_some, any_some]
    cases hholds : x.holds t with
    | false =>
      have hstate : s'.state = s.state :=
        state_of_timeless (h.same t s s' hholds hs hs')
      rw [hstate, Bool.not_false, Bool.and_true]
    | true =>
      obtain ⟨-, hst', -⟩ := h.of_holds hholds hs hs'
      rw [Bool.not_true, Bool.and_false]
      rcases hst' with hst' | hst' <;> rw [hst'] <;> rfl

theorem waitsOnlyFor_eq (id t : String) :
    y.waitsOnlyFor id t = (x.waitsOnlyFor id t && !x.holds t) := by
  have hdone : y.completedWith id = x.completedWith id := by
    funext p
    exact congrArg (_ || ·) (h.hasCompleted_eq p)
  rw [Execution.waitsOnlyFor, Execution.waitsOnlyFor, h.scheduled_eq, h.sameRun.plan, hdone]
  cases (t != id) <;> cases ((x.step t).any (·.state.stateType == .scheduled)) <;>
    cases x.holds t <;> simp

theorem isReady_eq (t : String) : isReady y t = (isReady x t && !x.holds t) := by
  have hdone : y.hasCompleted = x.hasCompleted := funext h.hasCompleted_eq
  have hready : ∀ z : Execution, isReady z t =
      ((z.step t).any (·.state.stateType == .scheduled) && (z.plan.parentsOf t).all z.hasCompleted) :=
    fun _ => rfl
  rw [hready, hready, h.scheduled_eq, hdone, h.sameRun.plan]
  cases ((x.step t).any (·.state.stateType == .scheduled)) <;> cases x.holds t <;> simp

theorem any_state_eq (hholds : x.holds t = false) (p : StateType → Bool) :
    (y.step t).any (fun s => p s.state.stateType) = (x.step t).any fun s => p s.state.stateType := by
  cases hs : x.step t with
  | none =>
    cases hs' : y.step t with
    | none => rfl
    | some s' =>
      obtain ⟨s, hsome⟩ := h.exists_step' hs'
      rw [hs] at hsome
      cases hsome
  | some s =>
    obtain ⟨s', hs'⟩ := h.exists_step hs
    rw [hs', any_some, any_some, state_of_timeless (h.same t s s' hholds hs hs')]

end Ahead

/-! ## One step of each run -/

/-- What one decision of each run does to step `t`: the same, nothing to a step held
back, the dispatch the pause holds back from now on, or the one it held back. -/
inductive Kept (d : Digests) (x x' : Execution) (t : String) :
    List WorkflowMessage → List WorkflowMessage → Prop where
  | same {about about' : List WorkflowMessage} (h : x.holds t = false) (h' : x'.holds t = false)
      (halike : Alike about about') : Kept d x x' t about about'
  | held (h : x.holds t = true) (h' : x'.holds t = true) : Kept d x x' t [] []
  | taken {about' : List WorkflowMessage} (h : x.holds t = false) (h' : x'.holds t = true)
      (halike : Alike (x.firstDispatch d t 0) about') : Kept d x x' t [] about'
  | released {about : List WorkflowMessage} (h : x.holds t = true) (h' : x'.holds t = false)
      (halike : Alike (x.firstDispatch d t 0) about) : Kept d x x' t about []

/-- How often an attempt is held back. -/
def owed (d : Digests) (x : Execution) (a : String × UInt32) : Nat :=
  if x.holds a.1 then (dispatched (x.firstDispatch d a.1 0)).count a else 0

theorem count_of_kept {x' : Execution} {t : String} {about about' : List WorkflowMessage}
    (hsame : SameRun x x') (h : Kept d x x' t about about') (n : UInt32) :
    (dispatched about').count (t, n) + owed d x (t, n) =
      (dispatched about).count (t, n) + owed d x' (t, n) := by
  have hdispatch : dispatched (x'.firstDispatch d t 0) = dispatched (x.firstDispatch d t 0) :=
    dispatched_of_alike (alike_firstDispatch hsame t 0 0)
  unfold owed
  cases h with
  | same h h' halike =>
    rw [if_neg (by simp [h]), if_neg (by simp [h']), dispatched_of_alike halike]
  | held h h' =>
    rw [if_pos h, if_pos h', hdispatch]
  | taken h h' halike =>
    rw [if_neg (by simp [h]), if_pos h', hdispatch, dispatched_of_alike halike]
    exact Nat.add_comm _ _
  | released h h' halike =>
    rw [if_pos h, if_neg (by simp [h']), dispatched_of_alike halike]
    exact Nat.add_comm _ _

theorem ahead_of_kept (h : Ahead d x y) {msgs msgs' : List WorkflowMessage}
    (hkept : ∀ t s, x.step t = some s →
      Kept d x (x.record msgs) t (aboutStep t msgs) (aboutStep t msgs'))
    (hcancelling : (y.record msgs').cancelling = (x.record msgs).cancelling)
    (hterminal : (y.record msgs').state.stateType.isTerminal =
      (x.record msgs).state.stateType.isTerminal)
    (hunpaused : (y.record msgs').state.stateType ≠ .paused)
    (hunscheduled : (x.record msgs).Unscheduled) (hunscheduled' : (y.record msgs').Unscheduled)
    (heager : (y.record msgs').Eager) : Ahead d (x.record msgs) (y.record msgs') where
  sameRun := ⟨by simp [h.sameRun.plan], by simp [h.sameRun.executionId], by simp [h.sameRun.mode]⟩
  cancelling := hcancelling
  terminal := hterminal
  unpaused := hunpaused
  wellFormed := wellFormed_record h.wellFormed msgs
  wellFormed' := wellFormed_record h.wellFormed' msgs'
  unscheduled := hunscheduled
  unscheduled' := hunscheduled'
  eager := heager
  same := by
    intro t s₁ s₁' hholds hs₁ hs₁'
    obtain ⟨s, hs, rfl⟩ := exists_step_of_record hs₁
    obtain ⟨s', hs', rfl⟩ := exists_step_of_record hs₁'
    have hstep := hkept t s hs
    generalize aboutStep t msgs = about at hstep ⊢
    generalize aboutStep t msgs' = about' at hstep ⊢
    cases hstep with
    | same hno _ halike => exact timeless_record_congr (h.same t s s' hno hs hs') halike
    | held _ h' => rw [hholds] at h'; cases h'
    | taken _ h' _ => rw [hholds] at h'; cases h'
    | released hyes _ halike =>
      exact (h.ahead t s s' hyes hs hs').trans (timeless_record_congr rfl halike).symm
  ahead := by
    intro t s₁ s₁' hholds hs₁ hs₁'
    obtain ⟨s, hs, rfl⟩ := exists_step_of_record hs₁
    obtain ⟨s', hs', rfl⟩ := exists_step_of_record hs₁'
    have hdispatch := @alike_firstDispatch d _ _ (sameRun_record x msgs) t 0 0
    have hstep := hkept t s hs
    generalize aboutStep t msgs = about at hstep ⊢
    generalize aboutStep t msgs' = about' at hstep ⊢
    cases hstep with
    | same _ h' _ => rw [hholds] at h'; cases h'
    | held hyes _ =>
      exact (h.ahead t s s' hyes hs hs').trans (timeless_record_congr rfl hdispatch).symm
    | taken hno _ halike =>
      have hsame := h.same t s s' hno hs hs'
      exact (timeless_record_congr hsame halike).trans (timeless_record_congr rfl hdispatch).symm
    | released _ h' _ => rw [hholds] at h'; cases h'

end Aiwatcher.Engine
