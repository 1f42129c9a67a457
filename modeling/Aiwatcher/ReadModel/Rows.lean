import Aiwatcher.ReadModel.Redelivered

/-!
# Aiwatcher.ReadModel.Rows

What a run's row says of its events taken together, in whatever order they arrive.  The start,
the calls, the tokens and the steps are functions of the events alone (`same_figures`).  The end
is the last that is applied, and the duration is taken when it is: an earlier start that arrives
afterwards moves the start and leaves the duration.
-/

namespace Aiwatcher.ReadModel

open List

namespace RunSummary

variable (floats : Floats)

/-- The row of a run, its events applied in order. -/
def row (first : RecordedEvent) (rest : List RecordedEvent) : RunSummary :=
  (first :: rest).foldl (apply floats) (.new first)

/-! ## What is counted -/

inductive Figure where
  | llmCalls | toolCalls | inputTokens | outputTokens | cachedTokens
  deriving DecidableEq, Repr

def figure (run : RunSummary) : Figure → Int
  | .llmCalls => run.llmCalls
  | .toolCalls => run.toolCalls
  | .inputTokens => run.inputTokens
  | .outputTokens => run.outputTokens
  | .cachedTokens => run.cachedTokens

/-- What an event adds to a figure of its run. -/
def worth (event : RecordedEvent) (figure : Figure) : Int :=
  (called floats (new event) event).figure figure

/-- The node a step of is started. -/
def startedNode (event : RecordedEvent) : Option String :=
  if event.eventType.subject = .step ∧ event.eventType.phase = some .start then
    event.dataStr "node"
  else none

/-- An event is kept among the steps of its run. -/
def isNodeStep (event : RecordedEvent) : Bool :=
  event.eventType.subject = .step && ((event.dataStr "node").bind (nodeStepOf event)).isSome

theorem figure_called (run : RunSummary) (event : RecordedEvent) (k : Figure) :
    (called floats run event).figure k = run.figure k + worth floats event k := by
  unfold worth called
  dsimp only
  split <;> cases k <;> simp [figure, new]

theorem called_rest (run : RunSummary) (event : RecordedEvent) :
    (called floats run event).durationMs = run.durationMs ∧
      (called floats run event).nodesRun = run.nodesRun ∧
      (called floats run event).nodeSteps = run.nodeSteps := by
  unfold called
  dsimp only
  split <;> exact ⟨rfl, rfl, rfl⟩

theorem opened_rest (run : RunSummary) (event : RecordedEvent) :
    (run.opened event).figure = run.figure ∧ (run.opened event).durationMs = run.durationMs ∧
      (run.opened event).nodesRun = run.nodesRun ∧
      (run.opened event).nodeSteps = run.nodeSteps := by
  unfold opened
  split <;> exact ⟨rfl, rfl, rfl, rfl⟩

theorem stepped_rest (run : RunSummary) (event : RecordedEvent) :
    (run.stepped event).figure = run.figure ∧ (run.stepped event).durationMs = run.durationMs ∧
      (run.stepped event).nodesRun = run.nodesRun ∧
      (run.nodeSteps.length ≤ maxNodeSteps → (run.stepped event).nodeSteps.length =
        min maxNodeSteps (run.nodeSteps.length + if isNodeStep event then 1 else 0)) := by
  unfold stepped isNodeStep
  by_cases hstep : event.eventType.subject = .step
  · cases hnode : (event.dataStr "node").bind (nodeStepOf event) with
    | none => simp +contextual [hstep]
    | some step =>
      simp only [hstep, if_true, decide_true, Bool.true_and, Option.isSome_some]
      split
      · refine ⟨rfl, rfl, rfl, fun _ => ?_⟩
        simp only [length_append, length_singleton]
        omega
      · exact ⟨rfl, rfl, rfl, fun _ => by simp only; omega⟩
  · simp +contextual [hstep]

theorem visited_rest (run : RunSummary) (event : RecordedEvent) :
    (run.visited event).figure = run.figure ∧ (run.visited event).durationMs = run.durationMs ∧
      (run.visited event).nodeSteps = run.nodeSteps ∧
      (run.visited event).nodesRun = (startedNode event).elim run.nodesRun fun node =>
        if run.nodesRun.length < maxNodesRun then withNew run.nodesRun node
        else run.nodesRun := by
  unfold visited startedNode
  cases hphase : event.eventType.phase with
  | none => simp
  | some phase =>
    cases hnode : event.dataStr "node" with
    | none => cases phase <;> simp
    | some node =>
      cases phase with
      | start =>
        by_cases hsubject : event.eventType.subject = .step
        · simp only [hsubject, true_and, and_self, if_true]
          split <;> exact ⟨rfl, rfl, rfl, rfl⟩
        · simp [hsubject]
      | _ => simp

/-- **Row lemma**: what one event does to the counters and the clock of a row. -/
theorem apply_rest (run : RunSummary) (event : RecordedEvent) :
    (∀ k, (run.apply floats event).figure k = run.figure k + worth floats event k) ∧
      (run.apply floats event).durationMs = (if (endOf event).isSome then
        some (Workflows.elapsedMs (min run.startedAt event.metadata.occurredAt)
          event.metadata.occurredAt) else run.durationMs) ∧
      (run.apply floats event).nodesRun = (startedNode event).elim run.nodesRun (fun node =>
        if run.nodesRun.length < maxNodesRun then withNew run.nodesRun node
        else run.nodesRun) ∧
      (run.nodeSteps.length ≤ maxNodeSteps → (run.apply floats event).nodeSteps.length =
        min maxNodeSteps (run.nodeSteps.length + if isNodeStep event then 1 else 0)) := by
  have hstarted := congrArg (·.2.1) (called_outcome floats run event)
  have hblamed : ∀ run : RunSummary, (run.blamed event).figure = run.figure ∧
      (run.blamed event).durationMs = run.durationMs ∧
      (run.blamed event).nodesRun = run.nodesRun ∧
      (run.blamed event).nodeSteps = run.nodeSteps := by
    intro run
    unfold blamed
    split <;> exact ⟨rfl, rfl, rfl, rfl⟩
  have hended : ∀ run : RunSummary, (run.ended event).figure = run.figure ∧
      (run.ended event).durationMs = (if (endOf event).isSome then
        some (Workflows.elapsedMs run.startedAt event.metadata.occurredAt)
          else run.durationMs) ∧
      (run.ended event).nodesRun = run.nodesRun ∧
      (run.ended event).nodeSteps = run.nodeSteps := by
    intro run
    unfold ended
    cases endOf event <;> exact ⟨rfl, rfl, rfl, rfl⟩
  obtain ⟨hopenedF, hopenedD, hopenedN, hopenedS⟩ := opened_rest (run.noted event) event
  obtain ⟨hvisitedF, hvisitedD, hvisitedS, hvisitedN⟩ :=
    visited_rest ((run.noted event).opened event) event
  obtain ⟨hsteppedF, hsteppedD, hsteppedN, hsteppedS⟩ :=
    stepped_rest (((run.noted event).opened event).visited event) event
  simp only [apply, hblamed, hended, figure_called, called_rest, hsteppedF, hvisitedF, hopenedF,
    hsteppedD, hvisitedD, hopenedD, hsteppedN, hvisitedN, hopenedN]
  refine ⟨fun k => rfl, ?_, rfl, ?_⟩
  · dsimp only [outcome] at hstarted
    rw [hstarted]
    rfl
  · rwa [hvisitedS, hopenedS] at hsteppedS

/-! ## What the events say together -/

variable {floats} {first : RecordedEvent} {events : List RecordedEvent}

theorem foldl_rest (events : List RecordedEvent) (run : RunSummary) :
    (∀ k, (events.foldl (apply floats) run).figure k =
        run.figure k + (events.map (worth floats · k)).sum) ∧
      (run.nodeSteps.length ≤ maxNodeSteps →
        (events.foldl (apply floats) run).nodeSteps.length =
          min maxNodeSteps (run.nodeSteps.length + events.countP isNodeStep)) ∧
      (run.nodesRun.Nodup → run.nodesRun.length ≤ maxNodesRun →
        (events.foldl (apply floats) run).nodesRun.length = min maxNodesRun
          (run.nodesRun ++ events.filterMap startedNode).toFinset.card) := by
  induction events generalizing run with
  | nil =>
    refine ⟨by simp, by simp, fun hnodup hroom => ?_⟩
    simp [toFinset_card_of_nodup hnodup, hroom]
  | cons event events ih =>
    obtain ⟨hfigures, hsteps, hnodes⟩ := ih (run.apply floats event)
    obtain ⟨hfigure, -, hnode, hstep⟩ := apply_rest floats run event
    rw [foldl_cons]
    refine ⟨fun k => ?_, fun hroom => ?_, fun hnodup hroom => ?_⟩
    · rw [hfigures, hfigure, map_cons, sum_cons, Int.add_assoc]
    · have hlength := hstep hroom
      rw [hsteps (by omega), hlength, countP_cons]
      omega
    · cases hstarted : startedNode event with
      | none =>
        have hsame : (run.apply floats event).nodesRun = run.nodesRun := by
          rw [hnode, hstarted]
          rfl
        rw [hnodes (by rwa [hsame]) (by rwa [hsame]), hsame]
        simp [hstarted]
      | some node =>
        rw [hstarted] at hnode
        dsimp only [Option.elim] at hnode
        rw [filterMap_cons_some hstarted]
        by_cases hknown : node ∈ run.nodesRun
        · have hsame : (run.apply floats event).nodesRun = run.nodesRun := by
            simp [hnode, withNew, hknown]
          have hset : (run.nodesRun ++ node :: events.filterMap startedNode).toFinset =
              (run.nodesRun ++ events.filterMap startedNode).toFinset := by
            ext other
            simp only [mem_toFinset, mem_append, mem_cons]
            grind
          rw [hnodes (by rwa [hsame]) (by rwa [hsame]), hsame, hset]
        · by_cases hfull : run.nodesRun.length < maxNodesRun
          · have hnew : (run.apply floats event).nodesRun = run.nodesRun ++ [node] := by
              rw [hnode, if_pos hfull, withNew, if_neg (by simpa using hknown)]
            have hnodup' : (run.nodesRun ++ [node]).Nodup :=
              nodup_append.mpr ⟨hnodup, nodup_singleton _, by
                rintro a ha b hb rfl
                exact hknown (mem_singleton.mp hb ▸ ha)⟩
            rw [hnodes (by rwa [hnew]) (by simp [hnew]; omega), hnew, append_assoc]
            rfl
          · have hsame : (run.apply floats event).nodesRun = run.nodesRun := by
              rw [hnode, if_neg hfull]
            have hcard : ∀ nodes : List String, maxNodesRun ≤
                (run.nodesRun ++ nodes).toFinset.card := by
              intro nodes
              rw [toFinset_append]
              refine Nat.le_trans ?_ (Finset.card_le_card Finset.subset_union_left)
              rw [toFinset_card_of_nodup hnodup]
              omega
            rw [hnodes (by rwa [hsame]) (by rwa [hsame]), hsame, Nat.min_eq_left (hcard _),
              Nat.min_eq_left (hcard _)]

theorem seen_row (first : RecordedEvent) (rest : List RecordedEvent) :
    (row floats first rest).Seen (first :: rest) := by
  have hfold : ∀ (rest before : List RecordedEvent) (run : RunSummary), run.Seen before →
      (rest.foldl (apply floats) run).Seen (before ++ rest) := by
    intro rest
    induction rest with
    | nil => exact fun before run h => by simpa using h
    | cons event rest ih =>
      intro before run h
      simpa using ih _ _ (h.apply floats event)
  exact hfold rest [first] _ (seen_new floats first)

theorem startedAt_foldl (events : List RecordedEvent) (run : RunSummary) :
    (events.foldl (apply floats) run).startedAt = run.startedAt ∨
      ∃ event ∈ events,
        event.metadata.occurredAt = (events.foldl (apply floats) run).startedAt := by
  induction events generalizing run with
  | nil => exact .inl rfl
  | cons event events ih =>
    have hstarted : (run.apply floats event).startedAt =
        min run.startedAt event.metadata.occurredAt := by
      have houtcome := congrArg (·.2.1) (outcome_apply floats run event)
      dsimp only [outcome] at houtcome
      rw [houtcome]
      split <;> rfl
    rw [foldl_cons]
    rcases ih (run.apply floats event) with hsame | ⟨other, hother, hat⟩
    · rw [hsame, hstarted]
      rcases min_choice run.startedAt event.metadata.occurredAt with hmin | hmin
      · exact .inl hmin
      · exact .inr ⟨event, mem_cons_self, hmin.symm⟩
    · exact .inr ⟨other, mem_cons_of_mem _ hother, hat⟩

theorem startedAt_row (first : RecordedEvent) (rest : List RecordedEvent) :
    (∀ event ∈ first :: rest, (row floats first rest).startedAt ≤ event.metadata.occurredAt) ∧
      ∃ event ∈ first :: rest,
        event.metadata.occurredAt = (row floats first rest).startedAt := by
  refine ⟨(seen_row first rest).started, ?_⟩
  rcases @startedAt_foldl floats (first :: rest) (.new first) with hsame | hevent
  · exact ⟨first, mem_cons_self, hsame.symm⟩
  · exact hevent

theorem endedAt_row (first : RecordedEvent) (rest : List RecordedEvent) :
    (row floats first rest).endedAt =
      (lastEnd (first :: rest)).map (·.metadata.occurredAt) := by
  have hseen := @seen_row floats first rest
  cases hlast : lastEnd (first :: rest) with
  | none => exact (hseen.running hlast).2
  | some event =>
    have hend : (endOf event).isSome := by
      have hmem := mem_of_getLast? hlast
      simpa using (mem_filter.mp hmem).2
    obtain ⟨ok, hok⟩ := Option.isSome_iff_exists.mp hend
    exact (hseen.ended event hlast ok hok).2.1

theorem durationMs_foldl {events : List RecordedEvent} (h : ∀ event ∈ events, endOf event = none)
    (run : RunSummary) :
    (events.foldl (apply floats) run).durationMs = run.durationMs := by
  induction events generalizing run with
  | nil => rfl
  | cons event events ih =>
    rw [foldl_cons, ih fun other hother => h other (mem_cons_of_mem _ hother),
      (apply_rest floats run event).2.1, h event mem_cons_self]
    rfl

/-! ## Orders -/

/-- No event behind the last end of an order is earlier, by whole milliseconds before that end,
than all the events up to it. -/
def Timely (events : List RecordedEvent) : Prop :=
  ∀ before stop after, events = before ++ stop :: after → (endOf stop).isSome →
    (∀ event ∈ after, endOf event = none) → ∀ event ∈ after, ∃ other ∈ before ++ [stop],
      Workflows.elapsedMs event.metadata.occurredAt stop.metadata.occurredAt ≤
        Workflows.elapsedMs other.metadata.occurredAt stop.metadata.occurredAt

/-- The duration is the time from the start to the end, none of it negative. -/
def Timed (run : RunSummary) : Prop :=
  ∀ stop ∈ run.endedAt, run.durationMs = some (Workflows.elapsedMs run.startedAt stop)

structure SameFigures (run other : RunSummary) : Prop where
  started : run.startedAt = other.startedAt
  ended : run.endedAt = other.endedAt
  duration : run.durationMs = other.durationMs
  figures : ∀ k, run.figure k = other.figure k
  nodes : run.nodesRun.length = other.nodesRun.length
  steps : run.nodeSteps.length = other.nodeSteps.length

theorem elapsedMs_anti {start later : OffsetDateTime} (h : start ≤ later)
    (stop : OffsetDateTime) :
    Workflows.elapsedMs later stop ≤ Workflows.elapsedMs start stop := by
  have hdiv : (stop - later).tdiv 1000000 ≤ (stop - start).tdiv 1000000 :=
    Int.tdiv_le_tdiv (by decide) (Int.sub_le_sub_left h stop)
  unfold Workflows.elapsedMs
  omega

theorem front_of_split {rest before after : List RecordedEvent} {stop : RecordedEvent}
    (h : first :: rest = before ++ stop :: after) : ∃ front, before ++ [stop] = first :: front := by
  cases before with
  | nil => exact ⟨[], by simp_all⟩
  | cons event before => exact ⟨before ++ [stop], by simp_all⟩

theorem lastEnd_eq_some_iff {stop : RecordedEvent} : lastEnd events = some stop ↔
    ∃ before after, events = before ++ stop :: after ∧ (endOf stop).isSome ∧
      ∀ event ∈ after, endOf event = none := by
  constructor
  · intro h
    obtain ⟨front, hfront⟩ := getLast?_eq_some_iff.mp h
    obtain ⟨before, rest, rfl, -, hrest⟩ := filter_eq_append_iff.mp hfront
    obtain ⟨between, after, rfl, -, hstop, hafter⟩ := filter_eq_cons_iff.mp hrest
    refine ⟨before ++ between, after, by simp, hstop, fun event hevent => ?_⟩
    simpa using filter_eq_nil_iff.mp hafter event hevent
  · rintro ⟨before, after, rfl, hstop, hafter⟩
    have hnone : after.filter (fun event => (endOf event).isSome) = [] :=
      filter_eq_nil_iff.mpr fun event hevent => by simp [hafter event hevent]
    simp [lastEnd, hstop, hnone]

/-- **Timing**: the duration is right exactly in the orders whose last end comes in time. -/
theorem timed_row_iff (first : RecordedEvent) (rest : List RecordedEvent) :
    (row floats first rest).Timed ↔ Timely (first :: rest) := by
  have hduration : ∀ before stop after, first :: rest = before ++ stop :: after →
      (endOf stop).isSome → (∀ event ∈ after, endOf event = none) →
      ∃ front, before ++ [stop] = first :: front ∧
        (row floats first rest).endedAt = some stop.metadata.occurredAt ∧
        (row floats first rest).durationMs = some (Workflows.elapsedMs
          (row floats first front).startedAt stop.metadata.occurredAt) := by
    intro before stop after hsplit hstop hafter
    obtain ⟨front, hfront⟩ := front_of_split hsplit
    refine ⟨front, hfront, ?_, ?_⟩
    · rw [endedAt_row, lastEnd_eq_some_iff.mpr ⟨before, after, hsplit, hstop, hafter⟩]
      rfl
    · have hstarted := congrArg (·.2.1) (outcome_apply floats
        (before.foldl (apply floats) (.new first)) stop)
      obtain ⟨ok, hok⟩ := Option.isSome_iff_exists.mp hstop
      simp only [outcome, hok] at hstarted
      rw [row, row, hsplit, ← hfront, foldl_append, foldl_cons,
        durationMs_foldl hafter, (apply_rest floats _ stop).2.1, if_pos hstop,
        foldl_append, foldl_cons, foldl_nil, hstarted]
  obtain ⟨hle, earliest, hearliest, hat⟩ := @startedAt_row floats first rest
  constructor
  · intro htimed before stop after hsplit hstop hafter event hevent
    obtain ⟨front, hfront, hended, hms⟩ := hduration before stop after hsplit hstop hafter
    have hsame := hms.symm.trans (htimed _ hended)
    obtain ⟨-, other, hother, hother'⟩ := @startedAt_row floats first front
    refine ⟨other, hfront ▸ hother, ?_⟩
    rw [hother', Option.some.inj hsame]
    exact elapsedMs_anti (hle event (by simp [hsplit, hevent])) _
  · intro htimely moment hmoment
    rw [endedAt_row, Option.mem_def, Option.map_eq_some_iff] at hmoment
    obtain ⟨stop, hlast, rfl⟩ := hmoment
    obtain ⟨before, after, hsplit, hstop, hafter⟩ := lastEnd_eq_some_iff.mp hlast
    obtain ⟨front, hfront, -, hms⟩ := hduration before stop after hsplit hstop hafter
    obtain ⟨hfrontLe, other, hother, hother'⟩ := @startedAt_row floats first front
    rw [hms, Option.some.injEq]
    -- the start is that of the front or of an event that is no earlier than all of it
    apply Int.le_antisymm
    · refine elapsedMs_anti ?_ _
      rw [← hother']
      refine hle other ?_
      rw [hsplit]
      rw [← hfront] at hother
      simp only [mem_append, mem_cons, not_mem_nil, or_false] at hother ⊢
      grind
    · rw [← hat]
      rw [hsplit, mem_append, mem_cons] at hearliest
      have hbehind : earliest ∈ first :: front ∨ earliest ∈ after := by
        rw [← hfront]
        simp only [mem_append, mem_cons, not_mem_nil, or_false]
        grind
      rcases hbehind with hin | hin
      · exact elapsedMs_anti (hfrontLe earliest hin) _
      · obtain ⟨late, hlate, hms⟩ := htimely before stop after hsplit hstop hafter earliest hin
        exact Int.le_trans hms (elapsedMs_anti (hfrontLe late (hfront ▸ hlate)) _)

theorem durationMs_running {rest : List RecordedEvent}
    (h : (row floats first rest).endedAt = none) : (row floats first rest).durationMs = none := by
  have hnone : ∀ event ∈ first :: rest, endOf event = none := by
    rw [endedAt_row, Option.map_eq_none_iff, lastEnd, getLast?_eq_none_iff, filter_eq_nil_iff] at h
    simpa using h
  rw [row, durationMs_foldl hnone]
  rfl

/-- **A row is what its events say**, its end the last of theirs that is applied: two orders give
the same figures, each with the duration from its start to its end, exactly when their last ends
are of one moment and come in time. -/
theorem same_row_iff (floats : Floats) {first first' : RecordedEvent}
    {rest rest' : List RecordedEvent} (h : (first :: rest).Perm (first' :: rest')) :
    (SameFigures (row floats first rest) (row floats first' rest') ∧
        (row floats first rest).Timed ∧ (row floats first' rest').Timed) ↔
      (lastEnd (first :: rest)).map (·.metadata.occurredAt) =
          (lastEnd (first' :: rest')).map (·.metadata.occurredAt) ∧
        Timely (first :: rest) ∧ Timely (first' :: rest') := by
  rw [timed_row_iff, timed_row_iff]
  refine and_congr_left fun ⟨htimely, htimely'⟩ => ?_
  rw [← @endedAt_row floats, ← @endedAt_row floats]
  refine ⟨fun hsame => hsame.ended, fun hended => ?_⟩
  have htimed := (@timed_row_iff floats first rest).mpr htimely
  have htimed' := (@timed_row_iff floats first' rest').mpr htimely'
  have hstarted : (row floats first rest).startedAt = (row floats first' rest').startedAt := by
    obtain ⟨hle, event, hevent, hat⟩ := @startedAt_row floats first rest
    obtain ⟨hle', event', hevent', hat'⟩ := @startedAt_row floats first' rest'
    apply Int.le_antisymm
    · rw [← hat']
      exact hle event' (h.mem_iff.mpr hevent')
    · rw [← hat]
      exact hle' event (h.mem_iff.mp hevent)
  obtain ⟨hfigures, hsteps, hnodes⟩ := @foldl_rest floats (first :: rest) (.new first)
  obtain ⟨hfigures', hsteps', hnodes'⟩ :=
    @foldl_rest floats (first' :: rest') (.new first')
  refine ⟨hstarted, hended, ?_, fun k => ?_, ?_, ?_⟩
  · cases hstop : (row floats first rest).endedAt with
    | none =>
      rw [durationMs_running hstop, durationMs_running (hended ▸ hstop)]
    | some stop => rw [htimed stop hstop, htimed' stop (hended ▸ hstop), hstarted]
  · rw [row, row, hfigures, hfigures', (h.map _).sum_eq]
    cases k <;> rfl
  · rw [row, row, hnodes (by simp [new]) (by simp [new]), hnodes' (by simp [new]) (by simp [new])]
    simp only [new, List.nil_append]
    rw [List.toFinset_eq_of_perm _ _ (h.filterMap startedNode)]
  · rw [row, row, hsteps (by simp [new]), hsteps' (by simp [new]), h.countP_eq]
    simp [new]

/-- A run's start, and its end a second later. -/
def lateStart : RecordedEvent :=
  Workflows.eventOf .runStarted 1 "m-1" "import" "one" []

def lateEnd : RecordedEvent :=
  let stop := Workflows.eventOf .runCompleted 2 "m-2" "import" "one" []
  { stop with metadata := { stop.metadata with
      occurredAt := lateStart.metadata.occurredAt + 1000000000 } }

theorem same_row_iff_late :
    (SameFigures (row Workflows.noNumbers lateStart [lateEnd])
          (row Workflows.noNumbers lateEnd [lateStart]) ∧
        (row Workflows.noNumbers lateStart [lateEnd]).Timed ∧
        (row Workflows.noNumbers lateEnd [lateStart]).Timed) ↔
      (lastEnd [lateStart, lateEnd]).map (·.metadata.occurredAt) =
          (lastEnd [lateEnd, lateStart]).map (·.metadata.occurredAt) ∧
        Timely [lateStart, lateEnd] ∧ Timely [lateEnd, lateStart] :=
  same_row_iff Workflows.noNumbers (.swap lateEnd lateStart [])

/-- The start that arrives behind the end moves the start, and the run took no time. -/
theorem late_start_takes_no_time : [lateStart, lateEnd].Perm [lateEnd, lateStart] ∧
    (row Workflows.noNumbers lateStart [lateEnd]).durationMs = some 1000 ∧
    (row Workflows.noNumbers lateEnd [lateStart]).startedAt = lateStart.metadata.occurredAt ∧
    (row Workflows.noNumbers lateEnd [lateStart]).endedAt = some lateEnd.metadata.occurredAt ∧
    (row Workflows.noNumbers lateEnd [lateStart]).durationMs = some 0 :=
  ⟨.swap lateEnd lateStart [], by decide +kernel⟩

end RunSummary

end Aiwatcher.ReadModel
