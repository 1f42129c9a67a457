import Aiwatcher.Engine.Cancelling

/-!
# Aiwatcher.Engine.Attempts

How attempts are numbered, and what one dispatch of each rests on.
-/

namespace Aiwatcher.Engine

open Library List

/-! ## Dispatched attempts -/

/-- The attempts some messages dispatch. -/
def dispatched (msgs : List WorkflowMessage) : List (String × UInt32) :=
  msgs.filterMap fun
    | .command (.executeStep id attempt _ _) => some (id, attempt)
    | _ => none

/-- The idempotency keys some messages dispatch under. -/
def idempotencyKeys (msgs : List WorkflowMessage) : List String :=
  msgs.filterMap fun
    | .command (.executeStep _ _ _ key) => some key
    | _ => none

@[simp] theorem dispatched_append (msgs msgs' : List WorkflowMessage) :
    dispatched (msgs ++ msgs') = dispatched msgs ++ dispatched msgs' := filterMap_append

/-- A key names its step and attempt. -/
theorem idempotencyKey_inj {e s s' : String} {n n' : UInt32}
    (h : idempotencyKey e s n = idempotencyKey e s' n') : s = s' ∧ n = n' := by
  have hsplit : ∀ (s : String) (n : UInt32),
      idempotencyKey e s n = (e ++ "/" ++ s) ++ "/" ++ n.toNat.repr := by
    intro s n
    rfl
  rw [hsplit, hsplit] at h
  obtain ⟨hfront, hnum⟩ := Text.append_repr_inj (c := '/') rfl rfl h
  refine ⟨?_, UInt32.toNat_inj.mp hnum⟩
  have := congrArg String.toList hfront
  simpa [String.toList_append, String.toList_inj] using this

/-! ## Numbering -/

/-- The number a fact gives a new attempt. -/
def WorkflowEvent.schedules? : WorkflowEvent → Option UInt32
  | .stepScheduled _ attempt _ _ | .stepRetryScheduled _ attempt _ => some attempt
  | _ => none

/-- The records of a step are its attempts from the first to the current one. -/
structure StepState.InOrder (s : StepState) : Prop where
  numbered : s.attempts.map (·.attempt.toNat) = List.range' 1 s.currentAttempt.toNat
  unscheduled : s.state.stateType = .scheduled → s.currentAttempt = 0

theorem map_attempt_updateAttempt (n : UInt32) {f : AttemptRecord → AttemptRecord}
    (hf : ∀ r, (f r).attempt = r.attempt) (rs : List AttemptRecord) :
    (updateAttempt n f rs).map (·.attempt.toNat) = rs.map (·.attempt.toNat) := by
  induction rs with
  | nil => rfl
  | cons r rs ih =>
    unfold updateAttempt
    split
    · rw [map_cons, map_cons, hf]
    · rw [map_cons, map_cons, ih]

variable {e : WorkflowEvent} {input : WorkflowMessage} {s : StepState} {t : String}

theorem numbering_apply (h : e.schedules? = none) :
    (s.apply e).currentAttempt = s.currentAttempt ∧
      (s.apply e).attempts.map (·.attempt.toNat) = s.attempts.map (·.attempt.toNat) := by
  have hrecords : ∀ (n : UInt32) (f : AttemptRecord → AttemptRecord),
      (∀ r, (f r).attempt = r.attempt) → (updateAttempt n f s.attempts).map (·.attempt.toNat) =
        s.attempts.map (·.attempt.toNat) := fun n f hf => map_attempt_updateAttempt n hf _
  cases e with
  | stepScheduled _ _ _ _ => cases h
  | stepRetryScheduled _ _ _ => cases h
  | stepStarted _ n => exact ⟨rfl, hrecords n _ fun _ => rfl⟩
  | stepCompleted _ n _ _ => exact ⟨rfl, hrecords n _ fun _ => rfl⟩
  | stepCacheHit _ n _ _ => exact ⟨rfl, hrecords n _ fun _ => rfl⟩
  | stepFailed _ n _ => exact ⟨rfl, hrecords n _ fun _ => rfl⟩
  | inputRequested _ n _ => exact ⟨rfl, hrecords n _ fun _ => rfl⟩
  | _ => exact ⟨rfl, rfl⟩

theorem scheduled_of_apply (h : (s.apply e).state.stateType = .scheduled) :
    s.state.stateType = .scheduled := by
  cases e with
  | stepFailed _ _ error =>
    simp only [StepState.apply, RunState.stateType_of] at h
    unfold FailureClass.attemptState at h
    split at h <;> cases h
  | inputProvided _ _ _ _ => exact h
  | stepScheduled _ _ _ _ => cases h
  | stepRetryScheduled _ _ _ => cases h
  | stepStarted _ _ => cases h
  | stepCompleted _ _ _ _ => cases h
  | stepCacheHit _ _ _ _ => cases h
  | stepSkipped _ _ => cases h
  | inputRequested _ _ _ => cases h
  | _ => exact h

theorem inOrder_apply (hs : s.InOrder) (h : e.schedules? = none) : (s.apply e).InOrder := by
  obtain ⟨hcurrent, hrecords⟩ := numbering_apply (s := s) h
  refine ⟨by rw [hrecords, hcurrent, hs.numbered], fun hst => ?_⟩
  rw [hcurrent]
  exact hs.unscheduled (scheduled_of_apply hst)

theorem toNat_succ {n : UInt32} (h : n.toNat + 1 < UInt32.size) : (n + 1).toNat = n.toNat + 1 := by
  rw [UInt32.toNat_add]
  exact Nat.mod_eq_of_lt h

theorem inOrder_pushAttempt (hs : s.InOrder) (hroom : s.currentAttempt.toNat + 1 < UInt32.size)
    {r : RunState} (hr : r.stateType ≠ .scheduled) (notBefore : Option OffsetDateTime) :
    (s.pushAttempt (s.currentAttempt + 1) r notBefore).InOrder := by
  refine ⟨?_, fun hst => absurd hst hr⟩
  simp only [StepState.pushAttempt, map_append, map_cons, map_nil, hs.numbered,
    toNat_succ hroom, range'_1_concat, Nat.add_comm 1]

/-- What a decision may do to the numbering of a step: nothing, or the next attempt. -/
structure Numbers (t : String) (s s' : StepState) (about : List WorkflowMessage) : Prop where
  inOrder : s'.InOrder
  current : s.currentAttempt.toNat ≤ s'.currentAttempt.toNat
  dispatched : dispatched about = [] ∨
    dispatched about = [(t, s'.currentAttempt)] ∧ s.currentAttempt.toNat < s'.currentAttempt.toNat

theorem numbers_of_apply (hs : s.InOrder) (h : e.schedules? = none) :
    Numbers t s (s.record [.event e]) [.event e] :=
  ⟨inOrder_apply hs h, (numbering_apply (s := s) h).1 ▸ Nat.le_refl _, Or.inl rfl⟩

theorem inOrder_stepScheduled (hs : s.InOrder) (hroom : s.currentAttempt.toNat + 1 < UInt32.size)
    (t : String) (kind : RuntimeKind) (key : Option String) :
    (s.apply (.stepScheduled t (s.currentAttempt + 1) kind key)).InOrder := by
  have hpush := inOrder_pushAttempt (r := .of .pending) hs hroom (by simp) none
  exact ⟨hpush.numbered, hpush.unscheduled⟩

theorem numbers_attemptMessages (hs : s.InOrder) (hroom : s.currentAttempt.toNat + 1 < UInt32.size)
    {e t : String} {p : PlanStep} {key : Option String} {now : OffsetDateTime} :
    Numbers t s (s.record (attemptMessages e t (s.currentAttempt + 1) p key now))
      (attemptMessages e t (s.currentAttempt + 1) p key now) := by
  have hscheduled := inOrder_stepScheduled hs hroom t p.runtime.kind key
  unfold attemptMessages
  cases hq : p.runtime.question with
  | none =>
    refine ⟨hscheduled, ?_, Or.inr ⟨rfl, ?_⟩⟩
    · exact Nat.le_of_lt (by
        show s.currentAttempt.toNat < (s.currentAttempt + 1).toNat
        rw [toNat_succ hroom]
        omega)
    · show s.currentAttempt.toNat < (s.currentAttempt + 1).toNat
      rw [toNat_succ hroom]
      omega
  | some spec =>
    refine ⟨inOrder_apply (e := .inputRequested t (s.currentAttempt + 1) (spec.request now))
      hscheduled rfl, ?_, Or.inl rfl⟩
    show s.currentAttempt.toNat ≤ (s.currentAttempt + 1).toNat
    rw [toNat_succ hroom]
    omega

theorem Numbers.cons {t : String} {s s' : StepState} {e : WorkflowEvent}
    {about : List WorkflowMessage} (he : e.schedules? = none)
    (h : Numbers t (s.apply e) s' about) : Numbers t s s' (.event e :: about) := by
  have hcurrent := (numbering_apply (s := s) he).1
  refine ⟨h.inOrder, hcurrent ▸ h.current, ?_⟩
  rw [← hcurrent]
  exact h.dispatched

/-! ## The inputs that keep the order -/

/-- Whether the next attempt of `id` still has a number. -/
def Execution.hasRoom (x : Execution) (id : String) : Bool :=
  (x.step id).all fun s => Decidable.decide (s.currentAttempt.toNat + 1 < UInt32.size)

/-- Whether a failure of `id` is followed by another attempt. -/
def Execution.retriesFailure (x : Execution) (id : String) (error : StepError) : Bool :=
  match x.step id, x.plan.step id with
  | some s, some p => mayRetry x p s error
  | _, _ => false

/-- Whether an input leaves the numbering in order: a failure that is retried names the
current attempt, and the number after it exists. -/
def Execution.keepsOrder (x : Execution) : WorkflowMessage → Bool
  | .event (.stepFailed id attempt error) =>
    !x.retriesFailure id error ||
      ((x.step id).any (·.currentAttempt == attempt) && x.hasRoom id)
  | .command (.retryStep id) => x.hasRoom id
  | .command (.provideInput id ..) => !x.answerReschedules id || x.hasRoom id
  | .command (.timeoutInput id _) =>
    !(x.answerReschedules id && (x.openPolicy id).any OnTimeout.isAnswer) || x.hasRoom id
  | _ => true

/-- The same of any state: a plan names no step twice. -/
def ExecutionState.keepsOrder : ExecutionState → WorkflowMessage → Bool
  | .empty, .command (.startExecution _ plan ..) => Decidable.decide plan.ids.Nodup
  | .empty, _ => true
  | .active x, input => x.keepsOrder input

variable {d : Digests} {x : Execution} {now : OffsetDateTime}

theorem room_of_hasRoom (hs : x.step t = some s) (h : x.hasRoom t = true) :
    s.currentAttempt.toNat + 1 < UInt32.size := by
  simpa [Execution.hasRoom, hs] using h

/-- **One decision** numbers the attempts of a step in order. -/
theorem numbers_of_move {about : List WorkflowMessage} (h : Move x now input t s about)
    (hs : x.step t = some s) (horder : s.InOrder) (hnodup : x.plan.ids.Nodup)
    (hkeeps : x.keepsOrder input = true) : Numbers t s (s.record about) about := by
  cases h with
  | untouched => exact ⟨horder, Nat.le_refl _, Or.inl rfl⟩
  | dispatched hp hfresh _ _ _ hagain =>
    rw [hagain hnodup, replicate_one, flatten_singleton]
    have hzero := horder.unscheduled hfresh
    have hroom : s.currentAttempt.toNat + 1 < UInt32.size := by rw [hzero]; decide
    have hone : (1 : UInt32) = s.currentAttempt + 1 := by rw [hzero]; rfl
    rw [hone]
    exact numbers_attemptMessages horder hroom
  | skippedByCancel _ _ => exact numbers_of_apply horder rfl
  | skippedBelow _ _ _ _ _ => exact numbers_of_apply horder rfl
  | retried hinput _ _ _ =>
    rw [hinput] at hkeeps
    exact numbers_attemptMessages horder (room_of_hasRoom hs hkeeps)
  | answered _ _ =>
    refine .cons rfl ?_
    exact numbers_of_apply (inOrder_apply horder rfl) rfl
  | answeredHosted _ _ _ => exact numbers_of_apply horder rfl
  | answeredWorker hanswers hasks hmode hp =>
    have hresumes : x.answerReschedules t = true := by
      rw [Execution.answerReschedules, hasks, hmode]
      rfl
    have hroom : s.currentAttempt.toNat + 1 < UInt32.size := by
      refine room_of_hasRoom hs ?_
      cases hanswers with
      | provided _ _ _ => simpa [Execution.keepsOrder, hresumes] using hkeeps
      | lapsed hopen hpolicy =>
        simpa [Execution.keepsOrder, hresumes, openPolicy_of_step hs hopen, hpolicy,
          OnTimeout.isAnswer] using hkeeps
    rename_i answeredBy response p key
    have hanswered : (s.apply (.inputProvided t s.currentAttempt answeredBy response)).InOrder :=
      inOrder_apply horder rfl
    exact .cons rfl (numbers_attemptMessages hanswered hroom)
  | started _ => exact numbers_of_apply horder rfl
  | asked _ _ => exact numbers_of_apply horder rfl
  | finished hfin => cases hfin <;> exact numbers_of_apply horder rfl
  | failedRetrying hinput hp hterminal hretry =>
    rename_i p attempt error
    have hretries : x.retriesFailure t error = true := by
      simp [Execution.retriesFailure, hs, hp, hretry]
    rw [hinput] at hkeeps
    obtain ⟨hcurrent, hroom⟩ : s.currentAttempt = attempt ∧ x.hasRoom t = true := by
      simpa [Execution.keepsOrder, hretries, hs] using hkeeps
    have hroom := room_of_hasRoom hs hroom
    subst hcurrent
    have hfailed : (s.apply (.stepFailed t s.currentAttempt error)).InOrder :=
      inOrder_apply horder rfl
    refine .cons rfl ⟨?_, ?_, Or.inr ⟨rfl, ?_⟩⟩
    · exact inOrder_pushAttempt hfailed hroom (by simp) _
    · show s.currentAttempt.toNat ≤ (s.currentAttempt + 1).toNat
      rw [toNat_succ hroom]
      omega
    · show s.currentAttempt.toNat < (s.currentAttempt + 1).toNat
      rw [toNat_succ hroom]
      omega
  | failed _ => exact numbers_of_apply horder rfl

/-! ## Over a run -/

theorem key_of_mem_attemptMessages {e t id : String} {n m : UInt32} {p : PlanStep}
    {key : Option String} {kind : RuntimeKind} {k : String}
    (h : WorkflowMessage.command (.executeStep id m kind k) ∈ attemptMessages e t n p key now) :
    k = idempotencyKey e id m := by
  unfold attemptMessages at h
  cases hq : p.runtime.question with
  | none =>
    simp only [hq, mem_cons, not_mem_nil, reduceCtorEq, or_false, false_or,
      WorkflowMessage.command.injEq, WorkflowCommand.executeStep.injEq] at h
    obtain ⟨rfl, rfl, -, rfl⟩ := h
    rfl
  | some spec =>
    simp [hq] at h

theorem key_of_move {t id k : String} {n : UInt32} {kind : RuntimeKind}
    {about : List WorkflowMessage} (h : Move x now input t s about)
    (hm : WorkflowMessage.command (.executeStep id n kind k) ∈ about) :
    k = idempotencyKey x.executionId id n := by
  cases h with
  | untouched => cases hm
  | dispatched _ _ _ _ _ _ =>
    obtain ⟨l, hl, hm⟩ := mem_flatten.mp hm
    rw [eq_of_mem_replicate hl] at hm
    exact key_of_mem_attemptMessages hm
  | retried _ _ _ _ => exact key_of_mem_attemptMessages hm
  | answeredWorker _ _ _ _ =>
    rcases mem_cons.mp hm with hm | hm
    · cases hm
    · exact key_of_mem_attemptMessages hm
  | failedRetrying _ _ _ _ =>
    simp only [retryMessages, mem_cons, not_mem_nil, reduceCtorEq, or_false, false_or,
      WorkflowMessage.command.injEq, WorkflowCommand.executeStep.injEq] at hm
    obtain ⟨rfl, rfl, -, rfl⟩ := hm
    rfl
  | _ => simp at hm

/-- Every dispatch among some messages carries the key of its step and attempt. -/
def Keyed (e : String) (msgs : List WorkflowMessage) : Prop :=
  ∀ id n kind k, .command (.executeStep id n kind k) ∈ msgs → k = idempotencyKey e id n

theorem idempotencyKeys_eq {e : String} {msgs : List WorkflowMessage} (h : Keyed e msgs) :
    idempotencyKeys msgs = (dispatched msgs).map fun a => idempotencyKey e a.1 a.2 := by
  induction msgs with
  | nil => rfl
  | cons m ms ih =>
    have hrest := ih fun id n kind k hm => h id n kind k (mem_cons_of_mem _ hm)
    cases m with
    | command c =>
      cases c with
      | executeStep id n kind k =>
        show k :: idempotencyKeys ms = idempotencyKey e id n :: (dispatched ms).map _
        rw [hrest, h id n kind k mem_cons_self]
      | _ => exact hrest
    | event _ => exact hrest
    | hosted _ => exact hrest

theorem count_dispatched (msgs : List WorkflowMessage) (t : String) (n : UInt32) :
    (dispatched msgs).count (t, n) = (dispatched (aboutStep t msgs)).count (t, n) := by
  induction msgs with
  | nil => rfl
  | cons m ms ih =>
    by_cases hm : m.stepId? = some t
    · rw [aboutStep_cons_of_eq hm]
      have hsplit : ∀ l, dispatched (m :: l) = dispatched [m] ++ dispatched l := by
        intro l
        rw [← dispatched_append, singleton_append]
      rw [hsplit ms, hsplit (aboutStep t ms), count_append, count_append, ih]
    · rw [aboutStep_cons_of_ne hm, ← ih]
      cases m with
      | command c =>
        cases c with
        | executeStep id k _ _ =>
          have hne : id ≠ t := by simpa [WorkflowMessage.stepId?] using hm
          exact count_cons_of_ne (by simp [hne])
        | _ => rfl
      | event _ => rfl
      | hosted _ => rfl

/-- Every step of the run is numbered in order, and the plan names none twice. -/
structure Execution.Numbered (x : Execution) : Prop where
  wellFormed : x.WellFormed
  nodup : x.plan.ids.Nodup
  inOrder : ∀ t s, x.step t = some s → s.InOrder

theorem numbered_record {msgs : List WorkflowMessage} (hx : x.Numbered)
    (h : ∀ t s, x.step t = some s → Numbers t s (s.record (aboutStep t msgs)) (aboutStep t msgs)) :
    (x.record msgs).Numbered := by
  refine ⟨wellFormed_record hx.wellFormed msgs, by rw [plan_record]; exact hx.nodup, ?_⟩
  intro t s' hs'
  obtain ⟨s, hs, rfl⟩ := exists_step_of_record hs'
  exact (h t s hs).inOrder

theorem numbered_of_opens (h : Opens input x)
    (hkeeps : ExecutionState.empty.keepsOrder input = true) : x.Numbered := by
  refine ⟨wellFormed_of_opens h, ?_, ?_⟩
  · cases h
    exact of_decide_eq_true hkeeps
  · intro t s hs
    obtain ⟨kind, rfl⟩ := fresh_of_opens h hs
    exact ⟨rfl, fun _ => rfl⟩

theorem numbers_of_opens (h : Opens input x) (hx : x.Numbered) :
    ∀ t s, x.step t = some s → Numbers t s
      (s.record (aboutStep t (dispatchMessages d x now))) (aboutStep t (dispatchMessages d x now)) :=
  fun t s hs => numbers_of_move (move_of_opens h hs) hs (hx.inOrder t s hs)
    hx.nodup (by cases h; rfl)

/-- What a run has dispatched, and the numbers its steps have reached: nothing was
dispatched twice, nothing is ahead of its step, and the keys are right. -/
structure Orderly (said : List WorkflowMessage) (x : Execution) : Prop where
  numbered : x.Numbered
  once : (dispatched said).Nodup
  reached : ∀ a ∈ dispatched said, ∃ s, x.step a.1 = some s ∧ a.2.toNat ≤ s.currentAttempt.toNat
  keyed : Keyed x.executionId said

/-- The same of a run's history, from before it exists. -/
def OrderlySoFar (said : List PendingMessage) : ExecutionState → Prop
  | .empty => said = []
  | .active x => Orderly (contents said) x

theorem orderly_record {said msgs : List WorkflowMessage} (hx : Orderly said x)
    (hsteps : ∀ m ∈ msgs, ∀ t, m.stepId? = some t → ∃ s, x.step t = some s)
    (hnumbers : ∀ t s, x.step t = some s →
      Numbers t s (s.record (aboutStep t msgs)) (aboutStep t msgs))
    (hkeyed : Keyed x.executionId msgs) : Orderly (said ++ msgs) (x.record msgs) := by
  refine ⟨numbered_record hx.numbered hnumbers, ?_, ?_, ?_⟩
  · rw [nodup_iff_count_le_one]
    rintro ⟨t, n⟩
    have hold := nodup_iff_count_le_one.mp hx.once (t, n)
    rw [dispatched_append, count_append, count_dispatched msgs]
    cases hs : x.step t with
    | none =>
      have hnil : aboutStep t msgs = [] := by
        refine aboutStep_of_forall_ne fun m hm ht => ?_
        obtain ⟨s, hs'⟩ := hsteps m hm t ht
        rw [hs] at hs'
        cases hs'
      rw [hnil]
      exact hold
    | some s =>
      rcases (hnumbers t s hs).dispatched with hnil | ⟨hone, hlt⟩
      · rw [hnil]
        exact hold
      · rw [hone]
        by_cases hn : n = (s.record (aboutStep t msgs)).currentAttempt
        · -- the new number is past everything this step was dispatched under
          have hzero : (dispatched said).count (t, n) = 0 := by
            refine count_eq_zero.mpr fun hmem => ?_
            obtain ⟨s', hs', hle⟩ := hx.reached (t, n) hmem
            cases hs.symm.trans hs'
            have hle : n.toNat ≤ s.currentAttempt.toNat := hle
            rw [hn] at hle
            omega
          rw [hzero, hn, count_singleton_self]
        · rw [count_cons_of_ne (by simpa using Ne.symm hn), count_nil]
          exact hold
  · rintro ⟨t, n⟩ ha
    rw [dispatched_append, mem_append] at ha
    rcases ha with ha | ha
    · obtain ⟨s, hs, hle⟩ := hx.reached (t, n) ha
      exact ⟨_, step_record_of_some hs msgs, Nat.le_trans hle (hnumbers t s hs).current⟩
    · have hcount : 0 < (dispatched (aboutStep t msgs)).count (t, n) := by
        rw [← count_dispatched]
        exact count_pos_iff.mpr ha
      have hmem := count_pos_iff.mp hcount
      have hsome : ∃ s, x.step t = some s := by
        obtain ⟨m, hm, -⟩ := mem_filterMap.mp hmem
        obtain ⟨hm, ht⟩ := mem_aboutStep.mp hm
        exact hsteps m hm t ht
      obtain ⟨s, hs⟩ := hsome
      refine ⟨_, step_record_of_some hs msgs, ?_⟩
      rcases (hnumbers t s hs).dispatched with hnil | ⟨hone, -⟩
      · rw [hnil] at hmem
        cases hmem
      · rw [hone, mem_singleton] at hmem
        exact Nat.le_of_eq (congrArg (fun a => a.2.toNat) hmem)
  · intro id n kind k hmem
    rw [executionId_record]
    rcases mem_append.mp hmem with hmem | hmem
    · exact hx.keyed id n kind k hmem
    · exact hkeyed id n kind k hmem

theorem orderly_of_opens (h : Opens input x)
    (hkeeps : ExecutionState.empty.keepsOrder input = true) :
    Orderly (openingFacts x ++ dispatchMessages d x now) (x.record (dispatchMessages d x now)) := by
  have hx := numbered_of_opens h hkeeps
  have hfacts : Orderly (openingFacts x) x := by
    refine ⟨hx, nodup_nil, ?_, ?_⟩
    · intro a ha
      cases ha
    · intro id n kind k hmem
      simp [openingFacts] at hmem
  refine orderly_record hfacts ?_ (numbers_of_opens h hx) ?_
  · exact fun m hm t ht => exists_step_of_mem_dispatchMessages hm ht
  · intro id n kind k hmem
    obtain ⟨s, hs⟩ := exists_step_of_mem_dispatchMessages hmem rfl
    exact key_of_move (move_of_opens h hs) (mem_aboutStep.mpr ⟨hmem, rfl⟩)

theorem orderly_of_decided {said msgs : List WorkflowMessage} (hx : Orderly said x)
    (h : Decided d x now input msgs) (hkeeps : x.keepsOrder input = true) :
    Orderly (said ++ msgs) (x.record msgs) := by
  have hwf := hx.numbered.wellFormed
  refine orderly_record hx (fun m hm t ht => exists_step_of_mem hwf h hm ht) ?_ ?_
  · intro t s hs
    exact numbers_of_move (move_of_decided hwf h hs) hs (hx.numbered.inOrder t s hs)
      hx.numbered.nodup hkeeps
  · intro id n kind k hmem
    obtain ⟨s, -, hmove, hmem⟩ := exists_move hwf h hmem rfl
    exact key_of_move hmove hmem

/-- **Attempt discipline**: in a run whose plan names no step twice, and in which every
failure that is retried names the current attempt and every next attempt has a number,
the records of each step are its attempts from the first to the current one, and no
attempt and no idempotency key is dispatched twice. -/
theorem attempts_are_in_order (d : Digests) (is : List Delivery)
    (h : ∀ st ∈ (machine d).run .empty is, st.before.keepsOrder st.input.input = true) :
    (∀ st ∈ (machine d).run .empty is, ∀ x, st.after = .active x → ∀ t s, x.step t = some s →
        s.attempts.map (·.attempt.toNat) = List.range' 1 s.currentAttempt.toNat) ∧
      (dispatched (contents ((machine d).emitted .empty is))).Nodup ∧
      (idempotencyKeys (contents ((machine d).emitted .empty is))).Nodup := by
  refine ⟨?_, ?_⟩
  · have hinv := run_rule (P := Execution.Numbered)
      (fun state i => state.keepsOrder i.input = true)
      (fun i x hopens hkeeps =>
        numbered_record (numbered_of_opens hopens hkeeps)
          (numbers_of_opens hopens (numbered_of_opens hopens hkeeps)))
      (fun i x msgs hx hkeeps hdecided => numbered_record hx fun t s hs =>
        numbers_of_move (move_of_decided hx.wellFormed hdecided hs) hs (hx.inOrder t s hs)
          hx.nodup hkeeps) h
    intro st hst x hx t s hs
    have hafter := (hinv st hst).2
    rw [hx] at hafter
    exact (hafter.inOrder t s hs).numbered
  · -- the history: what was said so far is orderly for the state it led to
    have hrun := Machine.accum_run (M := machine d)
      OrderlySoFar
      (fun state i => state.keepsOrder i.input = true)
      (by
        intro said state i out state' hP hkeeps hstep
        rcases step_cases hstep with ⟨x, rfl, hopens, hout, rfl⟩ | ⟨x, rfl, hdecided, rfl⟩
        · have hsaid : said = [] := hP
          show Orderly (contents (said ++ out)) _
          rw [hsaid, List.nil_append, hout]
          exact orderly_of_opens hopens hkeeps
        · show Orderly (contents (said ++ out)) _
          rw [contents, List.map_append]
          exact orderly_of_decided hP hdecided hkeeps)
      (h := []) (s := .empty) rfl h
    rw [List.nil_append] at hrun
    cases hlast : (machine d).last .empty is with
    | empty =>
      rw [hlast] at hrun
      have hnone : (machine d).emitted .empty is = [] := hrun
      rw [hnone]
      exact ⟨List.nodup_nil, List.nodup_nil⟩
    | active x =>
      rw [hlast] at hrun
      have horderly : Orderly (contents ((machine d).emitted .empty is)) x := hrun
      refine ⟨horderly.once, ?_⟩
      rw [idempotencyKeys_eq horderly.keyed]
      refine List.Nodup.map ?_ horderly.once
      rintro ⟨t, n⟩ ⟨t', n'⟩ heq
      obtain ⟨rfl, rfl⟩ := idempotencyKey_inj heq
      rfl

/-- A step that fails once and then succeeds. -/
def retriedOnce : List Delivery :=
  toldInOrder [startOf (planOf [workerStep "work"] []),
    .event (.stepStarted "work" 1),
    .event (.stepFailed "work" 1 ⟨.infrastructure, "the pod is gone"⟩),
    .event (.stepStarted "work" 2),
    .event (.stepCompleted "work" 2 [] none)]

theorem retriedOnce_attempts_are_in_order :
    (∀ st ∈ (machine plainDigests).run .empty retriedOnce, ∀ x, st.after = .active x →
        ∀ t s, x.step t = some s →
        s.attempts.map (·.attempt.toNat) = List.range' 1 s.currentAttempt.toNat) ∧
      (dispatched (contents ((machine plainDigests).emitted .empty retriedOnce))).Nodup ∧
      (idempotencyKeys (contents ((machine plainDigests).emitted .empty retriedOnce))).Nodup :=
  attempts_are_in_order plainDigests retriedOnce
    (List.all_eq_true.mp (by decide +kernel :
      ((machine plainDigests).run .empty retriedOnce).all
        (fun st => st.before.keepsOrder st.input.input) = true))

/-- The pod launcher and the worker both report that the first attempt failed. -/
def failedTwice : List Delivery :=
  toldInOrder [startOf (planOf [workerStep "work"] []),
    .event (.stepStarted "work" 1),
    .event (.stepFailed "work" 1 ⟨.infrastructure, "the pod is gone"⟩),
    .event (.stepFailed "work" 1 ⟨.infrastructure, "the worker stopped"⟩)]

/-- The second report dispatches the second attempt a second time. -/
theorem second_report_dispatches_twice :
    ¬ (dispatched (contents ((machine plainDigests).emitted .empty failedTwice))).Nodup := by
  decide +kernel

end Aiwatcher.Engine
