import Aiwatcher.ReadModel.State
import Aiwatcher.Workflows.Delivered

/-!
# Aiwatcher.ReadModel.Redelivered

What a run's row says of the events it was folded from, and that one of them folded in again says
nothing new: `unmoved_of_seen`.

An event that is folded in again moves no run, no execution, no node and no attempt, where it says
nothing new of them: `redelivery_moves_nothing`.  An earlier start or end says something new, and
moves them back: `redelivery_moves_back`.
-/

namespace Aiwatcher.ReadModel

namespace RunSummary

/-- Where a run stands, since when, until when, and what it failed with. -/
def outcome (run : RunSummary) :
    RunStatus × OffsetDateTime × Option OffsetDateTime × Option String :=
  (run.status, run.startedAt, run.endedAt, run.error)

/-- The last event that ended a run. -/
def lastEnd (events : List RecordedEvent) : Option RecordedEvent :=
  (events.filter fun event => (endOf event).isSome).getLast?

/-- A run stands as an event ended it. -/
def EndedBy (run : RunSummary) (event : RecordedEvent) : Prop :=
  ∀ ok, endOf event = some ok → run.status = (if ok then .succeeded else .failed) ∧
    run.endedAt = some event.metadata.occurredAt ∧ (ok = false → run.error = errorOf event)

/-- A row that was folded from some events. -/
structure Seen (run : RunSummary) (events : List RecordedEvent) : Prop where
  started : ∀ event ∈ events, run.startedAt ≤ event.metadata.occurredAt
  running : lastEnd events = none → run.status = .running ∧ run.endedAt = none
  ended : ∀ event, lastEnd events = some event → run.EndedBy event
  blamed : ∀ event ∈ events, blames event = true → run.status = .running → run.error = none →
    event.dataStr "error" = none

/-! ## One event -/

variable (floats : Floats)

/-- What a row is but for its outcome and its counters does not move either. -/
theorem called_outcome (run : RunSummary) (event : RecordedEvent) :
    (called floats (((run.noted event).opened event).visited event |>.stepped event)
      event).outcome = (run.status, min run.startedAt event.metadata.occurredAt, run.endedAt,
        run.error) := by
  have hcalled : ∀ run : RunSummary, (called floats run event).outcome = run.outcome := by
    intro run
    unfold called
    dsimp only
    split <;> rfl
  have hstepped : ∀ run : RunSummary, (run.stepped event).outcome = run.outcome := by
    intro run
    unfold stepped
    split
    · split
      · rfl
      · split <;> rfl
    · rfl
  have hvisited : ∀ run : RunSummary, (run.visited event).outcome = run.outcome := by
    intro run
    unfold visited
    split
    · split <;> rfl
    · rfl
  have hopened : ∀ run : RunSummary, (run.opened event).outcome = run.outcome := by
    intro run
    unfold opened
    split <;> rfl
  rw [hcalled, hstepped, hvisited, hopened]
  rfl

theorem blames_of_endOf {event : RecordedEvent} {ok : Bool} (h : endOf event = some ok) :
    blames event = false := by
  cases htype : event.eventType <;> simp_all [blames, endOf, EventType.subject, EventType.phase]

theorem outcome_apply (run : RunSummary) (event : RecordedEvent) :
    (run.apply floats event).outcome = match endOf event with
      | some ok => (if ok then .succeeded else .failed,
          min run.startedAt event.metadata.occurredAt, some event.metadata.occurredAt,
          if ok then run.error else errorOf event)
      | none => (run.status, min run.startedAt event.metadata.occurredAt, run.endedAt,
          if blames event && run.status = .running && run.error.isNone then
            event.dataStr "error" else run.error) := by
  have hcalled := called_outcome floats run event
  unfold apply
  generalize called floats _ event = row at hcalled ⊢
  simp only [outcome, Prod.mk.injEq] at hcalled
  obtain ⟨hstatus, hstarted, hended, herror⟩ := hcalled
  cases hend : endOf event with
  | some ok =>
    simp [blamed, RunSummary.ended, hend, blames_of_endOf hend, outcome, hstarted, herror]
  | none =>
    simp only [blamed, RunSummary.ended, hend, ← hstatus, ← hstarted, ← hended, ← herror]
    split <;> rfl

theorem lastEnd_append (events : List RecordedEvent) (event : RecordedEvent) :
    lastEnd (events ++ [event]) = if (endOf event).isSome then some event else lastEnd events := by
  unfold lastEnd
  rw [List.filter_append]
  by_cases hend : (endOf event).isSome = true
  · simp [hend]
  · simp [hend]

/-- **Row rule**: a row that is folded on has seen one event more. -/
theorem Seen.apply {run : RunSummary} {events : List RecordedEvent} (h : run.Seen events)
    (floats : Floats) (event : RecordedEvent) :
    (run.apply floats event).Seen (events ++ [event]) := by
  have houtcome := outcome_apply floats run event
  have hstarts : ∀ start : OffsetDateTime, start = min run.startedAt event.metadata.occurredAt →
      ∀ other ∈ events ++ [event], start ≤ other.metadata.occurredAt := by
    intro start hstart other hother
    rw [hstart]
    rcases List.mem_append.mp hother with hother | hother
    · exact Int.le_trans (Int.min_le_left _ _) (h.started other hother)
    · cases List.mem_singleton.mp hother
      exact Int.min_le_right _ _
  cases hend : endOf event with
  | some ok =>
    simp only [hend, outcome, Prod.mk.injEq] at houtcome
    obtain ⟨hstatus, hstarted, hended, herror⟩ := houtcome
    have hlast : lastEnd (events ++ [event]) = some event := by simp [lastEnd_append, hend]
    refine ⟨hstarts _ hstarted, by simp [hlast], ?_, ?_⟩
    · intro last hlast'
      cases Option.some.inj (hlast.symm.trans hlast')
      intro ok' hok'
      cases Option.some.inj (hend.symm.trans hok')
      exact ⟨hstatus, hended, fun hfailed => by simp [herror, hfailed]⟩
    · intro other hother hblames hrunning
      rw [hstatus] at hrunning
      split at hrunning <;> cases hrunning
  | none =>
    simp only [hend, outcome, Prod.mk.injEq] at houtcome
    obtain ⟨hstatus, hstarted, hended, herror⟩ := houtcome
    have hlast : lastEnd (events ++ [event]) = lastEnd events := by simp [lastEnd_append, hend]
    refine ⟨hstarts _ hstarted, ?_, ?_, ?_⟩
    · rw [hlast, hstatus, hended]
      exact h.running
    · intro last hlast' ok hok
      rw [hlast] at hlast'
      obtain ⟨hstood, hend, hfailed⟩ := h.ended last hlast' ok hok
      have hnot : run.status ≠ .running := by
        rw [hstood]
        split <;> simp
      rw [hstatus, hended, herror]
      exact ⟨hstood, hend, fun hok => by simpa [hnot] using hfailed hok⟩
    · intro other hother hblames hrunning hnone
      rw [hstatus] at hrunning
      rw [herror] at hnone
      cases hbefore : run.error with
      | some error =>
        rw [hbefore] at hnone
        simp at hnone
      | none =>
        rcases List.mem_append.mp hother with hother | hother
        · exact h.blamed other hother hblames hrunning hbefore
        · cases List.mem_singleton.mp hother
          simpa [hblames, hrunning, hbefore] using hnone

theorem seen_new (event : RecordedEvent) :
    ((RunSummary.new event).apply floats event).Seen [event] := by
  have hnew : (RunSummary.new event).Seen [] :=
    ⟨by simp, fun _ => ⟨rfl, rfl⟩, by simp [lastEnd], by simp⟩
  exact hnew.apply floats event

theorem Seen.unmoved {run : RunSummary} {events : List RecordedEvent} (h : run.Seen events)
    (floats : Floats) {event : RecordedEvent} (hmem : event ∈ events)
    (hlast : (endOf event).isSome → lastEnd events = some event) :
    (run.apply floats event).outcome = run.outcome := by
  have hstarted : min run.startedAt event.metadata.occurredAt = run.startedAt :=
    min_eq_left (h.started event hmem)
  rw [outcome_apply, hstarted]
  cases hend : endOf event with
  | some ok =>
    obtain ⟨hstatus, hended, hfailed⟩ := h.ended event (hlast (by rw [hend]; rfl)) ok hend
    cases ok <;> simp_all [outcome]
  | none =>
    dsimp only
    split
    · rename_i hblames
      simp only [Bool.and_eq_true, decide_eq_true_eq, Option.isNone_iff_eq_none] at hblames
      rw [h.blamed event hmem hblames.1.1 hblames.1.2 hblames.2, outcome, hblames.2]
    · rfl

end RunSummary

open Library Workflows Option Std

/-! ## One event -/

/-- Whether an event is folded into a run. -/
def opens (event : RecordedEvent) : Bool :=
  event.eventType.subject ≠ .eval && event.eventType.subject ≠ .client

/-- The execution an event is folded into. -/
def executionKey (event : RecordedEvent) : Option Key :=
  match event.metadata.workflowId, event.metadata.workflowRunId with
  | some _, some executionId => some (keyOf event.metadata.project executionId)
  | _, _ => none

namespace State

variable (floats : Floats) (config : ReadModelConfig) (state : State) {event : RecordedEvent}

theorem apply_of_opens (h : opens event = true) : state.apply floats config event =
    ({ (state.heard event).ran floats event with
      workflows := state.workflows.apply floats config.workflows event }.evict config.maxRuns) := by
  simp only [opens, Bool.and_eq_true, decide_eq_true_eq] at h
  have hheard : ((state.heard event).ran floats event).workflows = state.workflows := by
    unfold heard
    split <;> rfl
  unfold apply
  split
  · rename_i hsubject
    exact absurd hsubject h.1
  · rename_i hsubject
    exact absurd hsubject h.2
  · dsimp only
    rw [hheard]

theorem apply_of_not_opens (h : opens event = false) :
    (state.apply floats config event).runs = state.runs ∧
      (state.apply floats config event).workflows = state.workflows := by
  unfold apply
  split
  · exact ⟨rfl, rfl⟩
  · exact ⟨rfl, rfl⟩
  · rename_i heval hclient
    simp only [opens, ne_eq, decide_not, Bool.and_eq_false_iff, Bool.not_eq_false',
      decide_eq_true_eq] at h
    exact absurd h (not_or.mpr ⟨heval, hclient⟩)

theorem evict_fields (maxRuns : Nat) : (state.evict maxRuns).workflows = state.workflows ∧
    ∀ (runId : String) (run : RunSummary), (state.evict maxRuns).runs[runId]? = some run →
      state.runs[runId]? = some run := by
  unfold evict
  split
  · exact ⟨rfl, fun _ _ h => h⟩
  · refine ⟨rfl, ?_⟩
    dsimp only
    apply Evicting.walk_state (P := fun runs : BTreeMap String RunSummary =>
      ∀ (runId : String) (run : RunSummary), runs[runId]? = some run →
        state.runs[runId]? = some run)
    · intro runs dropped h _ runId run hrun
      exact h runId run (Table.of_erase hrun).2
    · exact fun _ _ h => h

theorem runs_apply (h : opens event = true) {runId : String} {now : RunSummary}
    (hnow : (state.apply floats config event).runs[runId]? = some now) :
    if runId = event.metadata.runId then
      now = (state.runs[runId]?.getD (.new event)).apply floats event
    else state.runs[runId]? = some now := by
  rw [apply_of_opens floats config state h] at hnow
  have hran := (evict_fields _ _).2 runId now hnow
  have hheard : (state.heard event).runs = state.runs := by
    unfold heard
    split <;> rfl
  simp only [ran, Table.getElem?_entry, hheard] at hran
  split
  · rename_i hrun
    subst hrun
    simpa using hran.symm
  · rename_i hrun
    rwa [if_neg (Ne.symm hrun)] at hran

theorem workflows_apply (h : opens event = true) : (state.apply floats config event).workflows =
    state.workflows.apply floats config.workflows event := by
  rw [apply_of_opens floats config state h, (evict_fields _ _).1]

end State

theorem metadata_of_executionKey {event : RecordedEvent} {key : Key} (h : executionKey event = some key) :
    ∃ workflowId executionId, event.metadata.workflowId = some workflowId ∧
      event.metadata.workflowRunId = some executionId ∧
      key = keyOf event.metadata.project executionId := by
  unfold executionKey at h
  split at h
  · rename_i workflowId executionId hworkflow hexecution
    exact ⟨workflowId, executionId, hworkflow, hexecution, (some.inj h).symm⟩
  · cases h

theorem apply_of_executionKey (floats : Floats) (config : WorkflowConfig) (state : WorkflowState)
    {event : RecordedEvent} (h : executionKey event = none) : state.apply floats config event = state := by
  unfold executionKey at h
  unfold WorkflowState.apply
  split
  · rename_i hworkflow hexecution
    rw [hworkflow, hexecution] at h
    cases h
  · rfl

/-! ## Rows and what they were folded from -/

/-- The read model, with the events each row was folded from since it was made. -/
structure Board where
  state : State := {}
  runs : String → List RecordedEvent := fun _ => []
  executions : Key → List RecordedEvent := fun _ => []

namespace Board

def apply (floats : Floats) (config : ReadModelConfig) (board : Board) (event : RecordedEvent) :
    Board where
  state := board.state.apply floats config event
  runs runId :=
    if opens event && runId = event.metadata.runId then
      (if board.state.runs.contains runId then board.runs runId else []) ++ [event]
    else board.runs runId
  executions key :=
    if opens event && executionKey event = some key then
      (if board.state.workflows.held.contains key then board.executions key else []) ++ [event]
    else board.executions key

theorem executions_apply (floats : Floats) (config : ReadModelConfig) (board : Board)
    (event : RecordedEvent) {key : Key} (hopens : opens event = true)
    (hkey : executionKey event = some key) :
    ∃ before, (board.apply floats config event).executions key = before ++ [event] :=
  ⟨_, if_pos (by simp [hopens, hkey])⟩

/-- Every row has seen the events it was folded from. -/
structure Faithful (config : ReadModelConfig) (board : Board) : Prop where
  runs : ∀ (runId : String) (run : RunSummary), board.state.runs[runId]? = some run →
    run.Seen (board.runs runId)
  executions : ∀ (key : Key) (held : Held), board.state.workflows.held[key]? = some held →
    held.Seen config.workflows.maxNodesPerExecution (board.executions key)

/-- When an event says nothing new of the rows it is folded into: they were folded from it, and
what it ends or starts is what they heard last. -/
structure Admits (board : Board) (event : RecordedEvent) : Prop where
  run : ∀ run, board.state.runs[event.metadata.runId]? = some run →
    event ∈ board.runs event.metadata.runId ∧
      ((RunSummary.endOf event).isSome = true →
        RunSummary.lastEnd (board.runs event.metadata.runId) = some event)
  execution : ∀ key held, executionKey event = some key →
    board.state.workflows.held[key]? = some held → held.Repeats (board.executions key) event

end Board

/-- No run, execution, node or attempt that stays changes its status, its start, its end or its
error. -/
structure Unmoved (before after : State) : Prop where
  runs : ∀ (runId : String) (run now : RunSummary), before.runs[runId]? = some run →
    after.runs[runId]? = some now → now.outcome = run.outcome
  executions : ∀ (key : Key) (held now : Held), before.workflows.held[key]? = some held →
    after.workflows.held[key]? = some now → now.outcome = held.outcome ∧
      (∀ (n : String) (node : NodeState), held.nodes[n]? = some node →
        ∃ state, now.nodes[n]? = some state ∧ state.outcome = node.outcome) ∧
      ∀ n, now.attemptsOf n = held.attemptsOf n

namespace Board

variable {floats : Floats} {config : ReadModelConfig} {board : Board} {event : RecordedEvent}

theorem Faithful.apply (h : board.Faithful config) :
    (board.apply floats config event).Faithful config := by
  cases hopens : opens event with
  | false =>
    obtain ⟨hruns, hworkflows⟩ :=
      State.apply_of_not_opens floats config board.state hopens
    simp only [Board.apply, hopens, Bool.false_and, Bool.false_eq_true, if_false]
    exact ⟨by rw [hruns]; exact h.runs, by rw [hworkflows]; exact h.executions⟩
  | true =>
    refine ⟨?_, ?_⟩
    · intro runId now hnow
      have hcases := State.runs_apply floats config board.state hopens hnow
      simp only [Board.apply, hopens, Bool.true_and, decide_eq_true_eq]
      split
      · rename_i hrun
        rw [if_pos hrun] at hcases
        rw [hcases, ExtTreeMap.contains_eq_isSome_getElem?]
        cases hheld : board.state.runs[runId]? with
        | some run => exact (h.runs runId run hheld).apply floats event
        | none => exact RunSummary.seen_new floats event
      · rename_i hrun
        rw [if_neg hrun] at hcases
        exact h.runs runId now hcases
    · intro key now hnow
      rw [Board.apply, State.workflows_apply floats config board.state hopens] at hnow
      simp only [Board.apply, hopens, Bool.true_and, decide_eq_true_eq]
      cases hexecution : executionKey event with
      | none =>
        rw [apply_of_executionKey _ _ _ hexecution] at hnow
        simpa using h.executions key now hnow
      | some own =>
        obtain ⟨workflowId, executionId, hworkflow, hid, rfl⟩ :=
          metadata_of_executionKey hexecution
        have hcases := WorkflowState.apply_cases floats config.workflows _ event hworkflow hid
          hnow
        simp only [some.injEq, eq_comm (b := key)]
        split
        · rename_i hkey
          rw [if_pos hkey] at hcases
          obtain ⟨mid, hstands, hmid⟩ := hcases
          rw [ExtTreeMap.contains_eq_isSome_getElem?]
          rcases hmid with ⟨held, hheld, hbefore⟩ | ⟨hnone, htold⟩
          · rw [hheld]
            have hseen := hbefore.seen (h.executions key held hheld)
            exact hstands.seen (hseen.told.fold floats config.workflows event)
          · rw [hnone]
            exact hstands.seen (htold.fold floats config.workflows event)
        · rename_i hkey
          rw [if_neg hkey] at hcases
          obtain ⟨held, hheld, hstands⟩ := hcases
          exact hstands.seen (h.executions key held hheld)

/-- **Redelivery rule**: an event that says nothing new of its rows moves none. -/
theorem Faithful.unmoved (h : board.Faithful config) (hadmits : board.Admits event) :
    Unmoved board.state (board.apply floats config event).state := by
  have hsame : ∀ (key : Key) (held now : Held),
      Stands config.workflows.maxNodesPerExecution held now →
      board.state.workflows.held[key]? = some held → now.outcome = held.outcome ∧
        (∀ (n : String) (node : NodeState), held.nodes[n]? = some node →
          ∃ state, now.nodes[n]? = some state ∧ state.outcome = node.outcome) ∧
        ∀ n, now.attemptsOf n = held.attemptsOf n :=
    fun key held now hstands hheld => ⟨(hstands.settled (h.executions key held hheld).settled).1,
      hstands.undisturbed.nodes.kept, hstands.undisturbed.attempts⟩
  cases hopens : opens event with
  | false =>
    obtain ⟨hruns, hworkflows⟩ :=
      State.apply_of_not_opens floats config board.state hopens
    refine ⟨?_, ?_⟩
    · intro runId run now hrun hnow
      rw [Board.apply, hruns, hrun] at hnow
      cases hnow
      rfl
    · intro key held now hheld hnow
      rw [Board.apply, hworkflows, hheld] at hnow
      cases hnow
      exact hsame key held held (.rfl' held) hheld
  | true =>
    refine ⟨?_, ?_⟩
    · intro runId run now hrun hnow
      have hcases := State.runs_apply floats config board.state hopens hnow
      split at hcases
      · rename_i hown
        subst hown
        rw [hcases, hrun, getD_some]
        exact (h.runs _ run hrun).unmoved floats (hadmits.run run hrun).1
          (hadmits.run run hrun).2
      · rw [hrun] at hcases
        cases hcases
        rfl
    · intro key held now hheld hnow
      rw [Board.apply, State.workflows_apply floats config board.state hopens] at hnow
      cases hexecution : executionKey event with
      | none =>
        rw [apply_of_executionKey _ _ _ hexecution, hheld] at hnow
        cases hnow
        exact hsame key held held (.rfl' held) hheld
      | some own =>
        obtain ⟨workflowId, executionId, hworkflow, hid, rfl⟩ :=
          metadata_of_executionKey hexecution
        have hcases := WorkflowState.apply_cases floats config.workflows _ event hworkflow hid
          hnow
        split at hcases
        · rename_i hkey
          subst hkey
          obtain ⟨mid, hstands, ⟨old, hold, hbefore⟩ | ⟨hnone, -⟩⟩ := hcases
          · cases some.inj (hheld.symm.trans hold)
            have hseen := h.executions _ held hheld
            have hmid := hbefore.seen hseen
            have hrepeats := (hadmits.execution _ held hexecution hheld).stands hbefore
              hseen.settled
            obtain ⟨houtcome, hundisturbed⟩ := hmid.unmoved floats hrepeats
            have hfolded := hmid.told.fold floats config.workflows event
            refine hsame _ held now ?_ hheld
            refine (hbefore.trans ⟨hundisturbed, fun _ => ⟨houtcome, hfolded.settled⟩⟩).trans
              hstands
          · rw [hnone] at hheld
            cases hheld
        · obtain ⟨old, hold, hstands⟩ := hcases
          cases some.inj (hheld.symm.trans hold)
          exact hsame key held now hstands hheld

end Board

/-- The read model, event after event. -/
def reading (floats : Floats) (config : ReadModelConfig) : Machine Board RecordedEvent Unit where
  step board event := some ([], board.apply floats config event)

/-- **Redelivery moves nothing**: after any events, one that says nothing new of the rows it is
folded into leaves every run, execution, node and attempt where it stood. -/
theorem redelivery_moves_nothing (floats : Floats) (config : ReadModelConfig)
    (events : List RecordedEvent) : ∀ st ∈ (reading floats config).run {} events,
      st.before.Admits st.input → Unmoved st.before.state st.after.state := by
  intro st hst hadmits
  have hnew : Board.Faithful config {} := ⟨by simp, by simp⟩
  have hfaithful := Machine.inv_of_mem_run (M := reading floats config) (Board.Faithful config)
    (fun _ _ => True)
    (fun board event out after h _ hstep => by
      simp only [reading] at hstep
      cases hstep
      exact h.apply) hnew (fun _ _ => trivial) st hst
  have hstep := Machine.step_of_mem_run hst
  simp only [reading, Option.some.injEq, Prod.mk.injEq] at hstep
  rw [← hstep.2]
  exact hfaithful.1.unmoved hadmits

/-- A step of node `a`, of one execution of the workflow `import`. -/
def stepOf (eventType : EventType) (position : UInt64) : RecordedEvent :=
  eventOf eventType position "m-1" "import" "one" [("node", .string "a")]

/-- The end of a step, delivered twice. -/
theorem stepEnd_moves_nothing :
    Unmoved ((reading noNumbers {}).last {} [stepOf .stepStarted 1, stepOf .stepCompleted 2]).state
      ((reading noNumbers {}).last {}
        [stepOf .stepStarted 1, stepOf .stepCompleted 2, stepOf .stepCompleted 2]).state := by
  refine redelivery_moves_nothing noNumbers {}
    [stepOf .stepStarted 1, stepOf .stepCompleted 2, stepOf .stepCompleted 2]
    ⟨(reading noNumbers {}).last {} [stepOf .stepStarted 1, stepOf .stepCompleted 2],
      stepOf .stepCompleted 2, [], (reading noNumbers {}).last {}
        [stepOf .stepStarted 1, stepOf .stepCompleted 2, stepOf .stepCompleted 2]⟩ ?_ ?_
  · simp [Machine.run, Machine.last, reading]
  · refine ⟨fun run _ => ⟨?_, fun hend => ?_⟩, fun key held hkey _ => ?_⟩
    · simp [Machine.last, reading, Board.apply, opens, stepOf, eventOf, EventType.subject]
    · cases hend
    · cases hkey
      obtain ⟨before, hlist⟩ := Board.executions_apply noNumbers {}
        ((reading noNumbers {}).last {} [stepOf .stepStarted 1]) (stepOf .stepCompleted 2) rfl rfl
      have hrepeats : held.Repeats (((reading noNumbers {}).last {}
          [stepOf .stepStarted 1, stepOf .stepCompleted 2]).executions (keyOf none "one"))
            (stepOf .stepCompleted 2) := by
        rw [show ((reading noNumbers {}).last {} [stepOf .stepStarted 1,
          stepOf .stepCompleted 2]).executions (keyOf none "one") =
            before ++ [stepOf .stepCompleted 2] from hlist]
        refine ⟨by simp, .inl rfl, ?_, ?_, ?_⟩
        · intro n _ hstart
          cases hstart
        · intro n ok hon _
          rw [lastStep_append, if_pos hon]
        · intro ok hrun
          cases hrun
      exact hrepeats

/-- A step's start after its end, a run's first end after its second, and the start of a managed
execution after its end, delivered again. -/
theorem redelivery_moves_back :
    ¬ Unmoved
        ((reading noNumbers {}).last {} [stepOf .stepStarted 1, stepOf .stepCompleted 2]).state
        ((reading noNumbers {}).last {} [stepOf .stepStarted 1, stepOf .stepCompleted 2,
          stepOf .stepStarted 1]).state ∧
      ¬ Unmoved
        ((reading noNumbers {}).last {} [stepOf .runFailed 1, stepOf .runCompleted 2]).state
        ((reading noNumbers {}).last {} [stepOf .runFailed 1, stepOf .runCompleted 2,
          stepOf .runFailed 1]).state ∧
      ¬ Unmoved
        ((reading noNumbers {}).last {}
          [stepOf .executionStarted 1, stepOf .executionCompleted 2]).state
        ((reading noNumbers {}).last {} [stepOf .executionStarted 1, stepOf .executionCompleted 2,
          stepOf .executionStarted 1]).state := by
  have hexecution : ∀ {before after : State}, Unmoved before after →
      ∀ held ∈ before.workflows.held[keyOf none "one"]?,
        ∀ now ∈ after.workflows.held[keyOf none "one"]?, now.outcome = held.outcome :=
    fun h held hheld now hnow => (h.executions _ held now hheld hnow).1
  have hrun : ∀ {before after : State}, Unmoved before after →
      ∀ run ∈ before.runs["run-1"]?, ∀ now ∈ after.runs["run-1"]?, now.outcome = run.outcome :=
    fun h run hrun now hnow => h.runs _ run now hrun hnow
  refine ⟨fun h => ?_, fun h => ?_, fun h => ?_⟩
  · exact absurd (hexecution h) (by decide +kernel)
  · exact absurd (hrun h) (by decide +kernel)
  · exact absurd (hexecution h) (by decide +kernel)

end Aiwatcher.ReadModel
