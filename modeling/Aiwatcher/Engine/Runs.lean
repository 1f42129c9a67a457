import Aiwatcher.Engine.Decided
import Aiwatcher.Library.Machine

/-!
# Aiwatcher.Engine.Runs

The run as a machine: deliver an input, fold what the decision said.

`step_record` is the projection the per-step modules rest on: what a decision makes
of one step is what the messages about that step make of it.

Runs of the decider: any inputs, in any order, refused ones without effect.  A run
opens once (`Opens`) and then takes the steps of `Decided`; `run_rule` is the
induction every invariant of a run goes through.
-/

namespace Aiwatcher.Engine

open Library List

/-! ## Messages by subject -/

/-- The step a message is about. -/
def WorkflowMessage.stepId? : WorkflowMessage → Option String
  | .event e => e.stepId?
  | .command (.retryStep id) | .command (.provideInput id ..) | .command (.executeStep id ..)
  | .command (.requestInput id _) | .command (.timeoutInput id _) => some id
  | _ => none

/-- The facts among the messages. -/
def events (msgs : List WorkflowMessage) : List WorkflowEvent :=
  msgs.filterMap WorkflowMessage.event?

/-- The messages about one step. -/
def aboutStep (id : String) (msgs : List WorkflowMessage) : List WorkflowMessage :=
  msgs.filter fun m => m.stepId? == some id

@[simp] theorem events_nil : events [] = [] := rfl

@[simp] theorem events_cons_event (e : WorkflowEvent) (msgs : List WorkflowMessage) :
    events (.event e :: msgs) = e :: events msgs := rfl

@[simp] theorem events_cons_command (c : WorkflowCommand) (msgs : List WorkflowMessage) :
    events (.command c :: msgs) = events msgs := rfl

@[simp] theorem events_append (msgs msgs' : List WorkflowMessage) :
    events (msgs ++ msgs') = events msgs ++ events msgs' := filterMap_append

@[simp] theorem aboutStep_nil (id : String) : aboutStep id [] = [] := rfl

@[simp] theorem aboutStep_append (id : String) (msgs msgs' : List WorkflowMessage) :
    aboutStep id (msgs ++ msgs') = aboutStep id msgs ++ aboutStep id msgs' :=
  filter_append ..

variable {id : String} {m : WorkflowMessage}

theorem aboutStep_cons_of_eq (h : m.stepId? = some id) (msgs : List WorkflowMessage) :
    aboutStep id (m :: msgs) = m :: aboutStep id msgs :=
  filter_cons_of_pos (by simp [h])

theorem aboutStep_cons_of_ne (h : m.stepId? ≠ some id) (msgs : List WorkflowMessage) :
    aboutStep id (m :: msgs) = aboutStep id msgs :=
  filter_cons_of_neg (by simp [h])

theorem mem_aboutStep {msgs : List WorkflowMessage} :
    m ∈ aboutStep id msgs ↔ m ∈ msgs ∧ m.stepId? = some id := by
  simp [aboutStep, mem_filter]

/-! ## Folding messages -/

/-- The step after the facts among some messages about it. -/
def StepState.record (step : StepState) (msgs : List WorkflowMessage) : StepState :=
  (events msgs).foldl StepState.apply step

/-- The run after the facts among some messages. -/
def Execution.record (x : Execution) (msgs : List WorkflowMessage) : Execution :=
  (events msgs).foldl apply x

/-- The state after the facts among some messages. -/
def ExecutionState.record (state : ExecutionState) (msgs : List WorkflowMessage) :
    ExecutionState :=
  (events msgs).foldl evolve state

variable (s : StepState)

@[simp] theorem StepState.record_nil : s.record [] = s := rfl

@[simp] theorem StepState.record_cons_event (e : WorkflowEvent) (msgs : List WorkflowMessage) :
    s.record (.event e :: msgs) = (s.apply e).record msgs := rfl

@[simp] theorem StepState.record_cons_command (c : WorkflowCommand) (msgs : List WorkflowMessage) :
    s.record (.command c :: msgs) = s.record msgs := rfl

theorem StepState.record_append (msgs msgs' : List WorkflowMessage) :
    s.record (msgs ++ msgs') = (s.record msgs).record msgs' := by
  simp [StepState.record]

variable (x : Execution)

@[simp] theorem Execution.record_nil : x.record [] = x := rfl

@[simp] theorem Execution.record_cons_event (e : WorkflowEvent) (msgs : List WorkflowMessage) :
    x.record (.event e :: msgs) = (Engine.apply x e).record msgs := rfl

@[simp] theorem Execution.record_cons_command (c : WorkflowCommand) (msgs : List WorkflowMessage) :
    x.record (.command c :: msgs) = x.record msgs := rfl

theorem Execution.record_append (msgs msgs' : List WorkflowMessage) :
    x.record (msgs ++ msgs') = (x.record msgs).record msgs' := by
  simp [Execution.record]

variable (msgs : List WorkflowMessage)

theorem ExecutionState.record_active :
    (ExecutionState.active x).record msgs = .active (x.record msgs) := by
  unfold ExecutionState.record Execution.record
  induction events msgs generalizing x with
  | nil => rfl
  | cons e es ih => exact ih (Engine.apply x e)

/-! ## One step at a time -/

theorem step_modifyStep (id t : String) (f : StepState → StepState) :
    (x.modifyStep id f).step t = if id = t then (x.step t).map f else x.step t := by
  unfold Execution.modifyStep Execution.step
  rw [Std.ExtTreeMap.getElem?_modify]
  by_cases h : id = t
  · subst h
    simp
  · rw [if_neg h, if_neg (by simpa [Std.LawfulEqCmp.compare_eq_iff_eq] using h)]

theorem step_apply (e : WorkflowEvent) (t : String) :
    (apply x e).step t =
      if e.stepId? = some t then (x.step t).map (fun s => s.apply e) else x.step t := by
  cases e <;>
    simp only [apply, WorkflowEvent.stepId?, step_modifyStep, Option.some.injEq, reduceCtorEq,
      if_false] <;> rfl

/-- **Projection**: a decision makes of a step what its messages about the step
make of it. -/
theorem step_record (t : String) :
    (x.record msgs).step t = (x.step t).map fun s => s.record (aboutStep t msgs) := by
  induction msgs generalizing x with
  | nil => simp
  | cons m ms ih =>
    cases m with
    | command c =>
      rw [Execution.record_cons_command, ih]
      by_cases hc : (WorkflowMessage.command c).stepId? = some t
      · rw [aboutStep_cons_of_eq hc]
        rfl
      · rw [aboutStep_cons_of_ne hc]
    | hosted m =>
      have hm : (WorkflowMessage.hosted m).stepId? ≠ some t := by simp [WorkflowMessage.stepId?]
      rw [aboutStep_cons_of_ne hm]
      exact ih x
    | event e =>
      rw [Execution.record_cons_event, ih, step_apply]
      by_cases he : e.stepId? = some t
      · rw [if_pos he, aboutStep_cons_of_eq (m := .event e) he, Option.map_map]
        rfl
      · rw [if_neg he, aboutStep_cons_of_ne (m := .event e) he]

theorem step_record_of_some {x : Execution} {s : StepState} {t : String}
    (h : x.step t = some s) (msgs : List WorkflowMessage) :
    (x.record msgs).step t = some (s.record (aboutStep t msgs)) := by
  rw [step_record, h, Option.map_some]

theorem exists_step_of_record {x : Execution} {s' : StepState} {t : String}
    {msgs : List WorkflowMessage} (h : (x.record msgs).step t = some s') :
    ∃ s, x.step t = some s ∧ s' = s.record (aboutStep t msgs) := by
  rw [step_record] at h
  obtain ⟨s, hs, rfl⟩ := Option.map_eq_some_iff.mp h
  exact ⟨s, hs, rfl⟩

/-! ## The run's own state -/

/-- The run state a fact sets. -/
def WorkflowEvent.runState? : WorkflowEvent → Option RunState
  | .executionStarted | .executionResumed => some (.of .running)
  | .executionPaused => some (.of .paused)
  | .executionCancelling _ => some .cancelling
  | .executionCancelled => some (.of .cancelled)
  | .executionCompleted => some (.of .completed)
  | .executionFailed reason => some (.named .failed reason)
  | _ => none

def WorkflowEvent.isCancelling : WorkflowEvent → Bool
  | .executionCancelling _ => true
  | _ => false

theorem state_apply (e : WorkflowEvent) : (apply x e).state = e.runState?.getD x.state := by
  cases e <;> rfl

theorem cancelling_apply (e : WorkflowEvent) :
    (apply x e).cancelling = (x.cancelling || e.isCancelling) := by
  cases e <;> simp [apply, WorkflowEvent.stepId?, WorkflowEvent.isCancelling, Execution.modifyStep]

/-- The last run state set by some messages. -/
def runState? (msgs : List WorkflowMessage) : Option RunState :=
  ((events msgs).filterMap WorkflowEvent.runState?).getLast?

theorem state_record : (x.record msgs).state = (runState? msgs).getD x.state := by
  unfold Execution.record runState?
  induction events msgs generalizing x with
  | nil => rfl
  | cons e es ih =>
    rw [foldl_cons, ih, state_apply, filterMap_cons]
    cases he : e.runState? with
    | none => rfl
    | some r =>
      rw [getLast?_cons]
      cases (es.filterMap WorkflowEvent.runState?).getLast? <;> rfl

theorem cancelling_record :
    (x.record msgs).cancelling = (x.cancelling || (events msgs).any WorkflowEvent.isCancelling) := by
  unfold Execution.record
  induction events msgs generalizing x with
  | nil => simp
  | cons e es ih => rw [foldl_cons, ih, cancelling_apply, any_cons, Bool.or_assoc]

/-- What no fact changes: a run's plan, its identity and who decides for it. -/
structure SameRun (x y : Execution) : Prop where
  plan : y.plan = x.plan
  executionId : y.executionId = x.executionId
  mode : y.mode = x.mode

theorem sameRun_apply (e : WorkflowEvent) : SameRun x (apply x e) := by
  cases e <;> exact ⟨rfl, rfl, rfl⟩

theorem sameRun_record : SameRun x (x.record msgs) := by
  unfold Execution.record
  induction events msgs generalizing x with
  | nil => exact ⟨rfl, rfl, rfl⟩
  | cons e es ih =>
    have hhead := sameRun_apply x e
    have htail := ih (apply x e)
    exact ⟨htail.plan.trans hhead.plan, htail.executionId.trans hhead.executionId,
      htail.mode.trans hhead.mode⟩

@[simp] theorem plan_record :
    (x.record msgs).plan = x.plan := (sameRun_record x msgs).plan

@[simp] theorem executionId_record :
    (x.record msgs).executionId = x.executionId := (sameRun_record x msgs).executionId

@[simp] theorem mode_record :
    (x.record msgs).mode = x.mode := (sameRun_record x msgs).mode

end Aiwatcher.Engine

namespace Aiwatcher.Engine

open Library List

/-- One input on its way to the decider: what it says, its id, and the clock. -/
structure Delivery where
  input : WorkflowMessage
  cause : String
  now : OffsetDateTime

/-- The decider as a machine: deliver an input, fold what was decided. -/
def machine (d : Digests) : Machine ExecutionState Delivery PendingMessage where
  step state i :=
    match decide d state i.input i.cause i.now with
    | .error _ => none
    | .ok out => some (out, state.record (contents out))

/-- The state a start reasons from: every step fresh, nothing scheduled. -/
def Execution.opened (executionId : String) (plan : ExecutionPlan) (owner : ExecutionOwner)
    (mode : ExecutionMode) (payloads : PayloadPolicy) (requestedBy : String)
    (input : BTreeMap String Value) : Execution where
  executionId := executionId
  plan := plan
  owner := owner
  mode := mode
  payloads := payloads
  requestedBy := requestedBy
  input := input
  state := .of .running
  steps := freshSteps plan
  cancelling := false
  createdAt := OffsetDateTime.unixEpoch

/-- A start that is accepted, and the run it opens. -/
inductive Opens : WorkflowMessage → Execution → Prop where
  | start {executionId : String} {plan : ExecutionPlan} {owner : ExecutionOwner}
      {mode : ExecutionMode} {payloads : PayloadPolicy} {requestedBy : String}
      {input : BTreeMap String Value}
      (hsteps : plan.steps ≠ []) (hacyclic : plan.isAcyclic = true) :
      Opens (.command (.startExecution executionId plan owner mode payloads requestedBy input))
        (.opened executionId plan owner mode payloads requestedBy input)

/-- The facts a start records before it dispatches. -/
def openingFacts (x : Execution) : List WorkflowMessage :=
  [.event (.executionRequested x.executionId x.plan x.owner x.mode x.payloads x.requestedBy x.input),
    .event .executionStarted]

variable {d : Digests} {input : WorkflowMessage} {is : List Delivery} {x : Execution}

theorem record_openingFacts (h : Opens input x) (msgs : List WorkflowMessage) :
    ExecutionState.empty.record (openingFacts x ++ msgs) = .active (x.record msgs) := by
  cases h
  exact ExecutionState.record_active _ msgs

/-- **Every step of a run** opens it or is a case of `Decided`. -/
theorem step_cases {state state' : ExecutionState} {i : Delivery} {out : Decision}
    (h : (machine d).step state i = some (out, state')) :
    (∃ x, state = .empty ∧ Opens i.input x ∧
        contents out = openingFacts x ++ dispatchMessages d x i.now ∧
        state' = .active (x.record (dispatchMessages d x i.now))) ∨
      (∃ x, state = .active x ∧ Decided d x i.now i.input (contents out) ∧
        state' = .active (x.record (contents out))) := by
  simp only [machine] at h
  cases hd : decide d state i.input i.cause i.now with
  | error e => rw [hd] at h; cases h
  | ok out' =>
    rw [hd] at h
    obtain ⟨rfl, rfl⟩ := Prod.mk.inj (Option.some.inj h)
    unfold decide at hd
    split at hd
    · rename_i executionId plan owner mode payloads requestedBy values hinput
      split at hd
      · cases hd
      · rename_i hsteps
        split at hd
        · cases hd
        · rename_i hacyclic
          cases hd
          let x := Execution.opened executionId plan owner mode payloads requestedBy values
          have hopens : Opens i.input x := by
            rw [hinput]
            exact .start (by simpa using hsteps) (by simpa using hacyclic)
          refine Or.inl ⟨x, rfl, hopens, ?_, ?_⟩
          · exact said_dispatchReady d x _ i.now
          · rw [← record_openingFacts hopens]
            exact congrArg _ (said_dispatchReady d x _ i.now)
    · cases hd
    · rename_i x
      exact Or.inr ⟨x, rfl, decideActive_decided hd, ExecutionState.record_active x _⟩

/-- What a property of runs says of a state: nothing before the run exists. -/
def ExecutionState.Holds (P : Execution → Prop) : ExecutionState → Prop
  | .empty => True
  | .active x => P x

/-- **Run rule**: what opening establishes and every admitted decision keeps holds
before and after every step of a run. -/
theorem run_rule {P : Execution → Prop} (Admits : ExecutionState → Delivery → Prop)
    (hopen : ∀ i x, Opens i.input x → Admits .empty i → P (x.record (dispatchMessages d x i.now)))
    (hdecide : ∀ i x msgs, P x → Admits (.active x) i → Decided d x i.now i.input msgs →
      P (x.record msgs)) (hadm : ∀ st ∈ (machine d).run .empty is, Admits st.before st.input) :
    ∀ st ∈ (machine d).run .empty is, st.before.Holds P ∧ st.after.Holds P := by
  refine Machine.inv_of_mem_run (ExecutionState.Holds P) Admits ?_ trivial hadm
  intro state i out state' hP hadmit hstep
  rcases step_cases hstep with ⟨x, rfl, hopens, -, rfl⟩ | ⟨x, rfl, hdecided, rfl⟩
  · exact hopen i x hopens hadmit
  · exact hdecide i x _ hP hadmit hdecided

theorem run_inv {P : Execution → Prop}
    (hopen : ∀ (i : Delivery) x, Opens i.input x → P (x.record (dispatchMessages d x i.now)))
    (hdecide : ∀ (i : Delivery) x msgs, P x → Decided d x i.now i.input msgs → P (x.record msgs))
    (is : List Delivery) : ∀ st ∈ (machine d).run .empty is, st.before.Holds P ∧ st.after.Holds P :=
  run_rule (fun _ _ => True) (fun i x h _ => hopen i x h) (fun i x msgs hP _ => hdecide i x msgs hP)
    fun _ _ => trivial

/-! ## Steps of a run are steps of its plan -/

/-- The step table has one entry for each step of the plan, under its own id. -/
structure Execution.WellFormed (x : Execution) : Prop where
  stepId : ∀ t s, x.step t = some s → s.stepId = t
  planned : ∀ t, (x.step t).isSome = true ↔ t ∈ x.plan.ids

theorem getElem?_freshSteps (plan : ExecutionPlan) (t : String) :
    ((freshSteps plan)[t]? = none ∧ t ∉ plan.ids) ∨
      ∃ kind, (freshSteps plan)[t]? = some (.fresh t kind) ∧ t ∈ plan.ids := by
  unfold freshSteps ExecutionPlan.ids
  induction plan.steps using List.reverseRecOn with
  | nil => exact Or.inl ⟨rfl, not_mem_nil⟩
  | append_singleton ps p ih =>
    rw [foldl_concat, map_append, Std.ExtTreeMap.getElem?_insert]
    by_cases hp : p.id = t
    · subst hp
      exact Or.inr ⟨p.runtime.kind, by simp, by simp⟩
    · have hcmp : ¬ compare p.id t = .eq := by simpa using hp
      rw [if_neg hcmp]
      have hmem : t ∈ ps.map (·.id) ++ [p].map (·.id) ↔ t ∈ ps.map (·.id) := by
        simp [Ne.symm hp]
      rw [hmem]
      exact ih

theorem fresh_of_opens (h : Opens input x) {t : String} {s : StepState} (hs : x.step t = some s) :
    ∃ kind, s = .fresh t kind := by
  cases h
  rename_i plan _ _ _ _ _ _ _
  rcases getElem?_freshSteps plan t with ⟨hnone, -⟩ | ⟨kind, hsome, -⟩
  · rw [Execution.step, Execution.opened, hnone] at hs
    cases hs
  · rw [Execution.step, Execution.opened, hsome] at hs
    exact ⟨kind, (Option.some.inj hs).symm⟩

theorem wellFormed_of_opens (h : Opens input x) : x.WellFormed := by
  refine ⟨?_, ?_⟩
  · intro t s hs
    obtain ⟨kind, rfl⟩ := fresh_of_opens h hs
    rfl
  · intro t
    cases h
    rename_i plan _ _ _ _ _ _ _
    rw [Execution.step, Execution.opened]
    rcases getElem?_freshSteps plan t with ⟨hnone, hmem⟩ | ⟨kind, hsome, hmem⟩
    · simp [hnone, hmem]
    · simp [hsome, hmem]

theorem stepId_apply (s : StepState) (e : WorkflowEvent) : (s.apply e).stepId = s.stepId := by
  cases e <;> rfl

theorem stepId_record (s : StepState) (msgs : List WorkflowMessage) :
    (s.record msgs).stepId = s.stepId := by
  unfold StepState.record
  induction events msgs generalizing s with
  | nil => rfl
  | cons e es ih => rw [foldl_cons, ih, stepId_apply]

theorem wellFormed_record (h : x.WellFormed) (msgs : List WorkflowMessage) :
    (x.record msgs).WellFormed := by
  refine ⟨?_, ?_⟩
  · intro t s' hs'
    obtain ⟨s, hs, rfl⟩ := exists_step_of_record hs'
    rw [stepId_record]
    exact h.stepId t s hs
  · intro t
    rw [step_record, Option.isSome_map, plan_record]
    exact h.planned t

theorem wellFormed_of_mem_run :
    ∀ st ∈ (machine d).run .empty is,
      st.before.Holds Execution.WellFormed ∧ st.after.Holds Execution.WellFormed :=
  run_inv (fun _ _ h => wellFormed_record (wellFormed_of_opens h) _)
    (fun _ _ _ h _ => wellFormed_record h _) is

theorem decided_of_mem_run {st : Step ExecutionState Delivery PendingMessage}
    (h : st ∈ (machine d).run .empty is) (hx : st.before = .active x) :
    x.WellFormed ∧ Decided d x st.input.now st.input.input (contents st.out) ∧
      st.after = .active (x.record (contents st.out)) := by
  have hwf := (wellFormed_of_mem_run st h).1
  rw [hx] at hwf
  rcases step_cases (Machine.step_of_mem_run h) with ⟨_, hempty, -⟩ | ⟨y, hy, hdecided, hafter⟩
  · rw [hx] at hempty
    cases hempty
  · cases hx.symm.trans hy
    exact ⟨hwf, hdecided, hafter⟩

theorem mem_values_steps {s : StepState} :
    s ∈ BTreeMap.values x.steps ↔ ∃ t, x.step t = some s := BTreeMap.mem_values

theorem wellFormed_modifyStep (h : x.WellFormed) (id : String) {f : StepState → StepState}
    (hf : ∀ s, (f s).stepId = s.stepId) : (x.modifyStep id f).WellFormed := by
  refine ⟨?_, ?_⟩
  · intro t s' hs'
    rw [step_modifyStep] at hs'
    split at hs'
    · obtain ⟨s, hs, rfl⟩ := Option.map_eq_some_iff.mp hs'
      rw [hf]
      exact h.stepId t s hs
    · exact h.stepId t s' hs'
  · intro t
    rw [plan_modifyStep, ← h.planned t, step_modifyStep]
    split <;> simp

theorem all_values_steps (h : x.WellFormed) (p : StepState → Bool) :
    (BTreeMap.values x.steps).all p = x.plan.ids.all fun t => (x.step t).any p := by
  rw [Bool.eq_iff_iff, all_eq_true, all_eq_true]
  constructor
  · intro hall t ht
    obtain ⟨s, hs⟩ := Option.isSome_iff_exists.mp ((h.planned t).mpr ht)
    rw [hs, Option.any_some]
    exact hall s (mem_values_steps.mpr ⟨t, hs⟩)
  · intro hall s hs
    obtain ⟨t, ht⟩ := mem_values_steps.mp hs
    have hmem : t ∈ x.plan.ids := (h.planned t).mp (by simp [ht])
    simpa [ht] using hall t hmem

theorem wellFormed_of_last (hx : (machine d).last .empty is = .active x) : x.WellFormed := by
  have hinv := Machine.inv_last (M := machine d) (ExecutionState.Holds Execution.WellFormed)
    (fun state i out state' hwf hstep => by
      rcases step_cases hstep with ⟨y, rfl, hopens, -, rfl⟩ | ⟨y, rfl, -, rfl⟩
      · exact wellFormed_record (wellFormed_of_opens hopens) _
      · exact wellFormed_record hwf _) (s := .empty) trivial is
  rwa [hx] at hinv

/-! ## Runs to look at -/

theorem active_of_any {state : ExecutionState} {f : Execution → Bool}
    (h : state.isActive.any f = true) : ∃ x, state = .active x ∧ f x = true := by
  cases state with
  | empty => simp [ExecutionState.isActive] at h
  | active x => exact ⟨x, rfl, by simpa [ExecutionState.isActive] using h⟩

theorem exists_active_of_any {σ ο : Type} {steps : List (Step ExecutionState σ ο)}
    {f : Execution → Step ExecutionState σ ο → Bool}
    (h : (steps.any fun st => st.before.isActive.any fun x => f x st) = true) :
    ∃ st ∈ steps, ∃ x, st.before = .active x ∧ f x st = true := by
  obtain ⟨st, hst, hany⟩ := any_eq_true.mp h
  obtain ⟨x, hx, hf⟩ := active_of_any hany
  exact ⟨st, hst, x, hx, hf⟩

/-- A step some worker runs. -/
def workerStep (id : String) : PlanStep where
  id := id
  runtime := .pythonTask ⟨"task@1", "default", ∅⟩
  inputs := []
  outputs := []
  retry := ⟨3, 6, [1, 5, 30], [5, 15, 30]⟩
  timeoutSeconds := 60
  cache := .never

def planOf (steps : List PlanStep) (edges : List (String × String)) : ExecutionPlan where
  planId := "plan"
  definitionKind := .workflow
  definitionName := "sample"
  revision := "1"
  steps := steps
  edges := edges.map fun e => ⟨e.1, e.2⟩

def startOf (plan : ExecutionPlan) : WorkflowMessage :=
  .command (.startExecution "run" plan .localDecider .compiled .external "somebody" ∅)

/-- Inputs nobody timed, each under an id of its own. -/
def toldInOrder (inputs : List WorkflowMessage) : List Delivery :=
  inputs.zipIdx.map fun told => ⟨told.1, toString told.2, 0⟩

/-- Ids that are what they name, and no cached results. -/
def plainDigests : Digests := ⟨id, fun _ _ => none⟩

end Aiwatcher.Engine
