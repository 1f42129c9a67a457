import Aiwatcher.Asked.Index
import Aiwatcher.Workflows.State

/-!
# Aiwatcher.ReadModel.State

One row of the runs table, and what an event does to it (`readmodel.rs`).

What calls cost and the digest of a declared shape are left out.

The panel's projection of the log (`readstate.rs`): the runs, and the workflows folded alongside
them.

Spans and evaluations are left out.
-/

namespace Aiwatcher.ReadModel

/-! ## Rows -/

inductive RunStatus where
  | running
  | succeeded
  | failed
  deriving DecidableEq, Repr

def maxNodesRun : Nat := 64

def maxNodeSteps : Nat := 256

/-- One step of a workflow node, as the run's log holds it. -/
inductive NodeStep where
  | started (node : String)
  | completed (node : String)
  | failed (node : String)
  deriving DecidableEq, Repr

/-- One row in the runs table. -/
structure RunSummary where
  runId : String
  conversationId : Option String
  traceId : TraceId
  status : RunStatus := .running
  agents : List String := []
  runtimes : List String := []
  workflow : Option String := none
  variantId : Option String := none
  evaluationId : Option String := none
  publishedBy : Option String := none
  /-- Taken from the first event, and never moved. -/
  project : Option Store.ProjectScope
  callerRunId : Option String := none
  nodesRun : List String := []
  nodeSteps : List NodeStep := []
  nodeStepsDropped : Bool := false
  startedAt : OffsetDateTime
  lastEventAt : OffsetDateTime
  endedAt : Option OffsetDateTime := none
  durationMs : Option Int := none
  eventCount : Nat := 0
  llmCalls : Nat := 0
  toolCalls : Nat := 0
  inputTokens : Int := 0
  outputTokens : Int := 0
  cachedTokens : Int := 0
  error : Option String := none
  deriving DecidableEq, Repr

/-- A list with a text it does not have yet. -/
def withNew (known : List String) (text : String) : List String :=
  if known.contains text then known else known ++ [text]

namespace RunSummary

def new (event : RecordedEvent) : RunSummary where
  runId := event.metadata.runId
  conversationId := event.metadata.conversationId
  traceId := event.metadata.traceId
  project := event.metadata.project
  startedAt := event.metadata.occurredAt
  lastEventAt := event.metadata.occurredAt

/-! ## What an event does -/

/-- What every event says of its run. -/
def noted (run : RunSummary) (event : RecordedEvent) : RunSummary :=
  { run with
    eventCount := run.eventCount + 1
    startedAt := min run.startedAt event.metadata.occurredAt
    lastEventAt := max run.lastEventAt event.metadata.occurredAt
    conversationId := run.conversationId.or event.metadata.conversationId
    agents := event.metadata.agentId.elim run.agents (withNew run.agents)
    runtimes := if event.metadata.source.service.isEmpty then run.runtimes
      else withNew run.runtimes event.metadata.source.service
    workflow := run.workflow.or event.metadata.workflowId
    variantId := run.variantId.or event.metadata.variantId }

/-- What a run's start says. -/
def opened (run : RunSummary) (event : RecordedEvent) : RunSummary :=
  if event.eventType.subject = .run ∧ event.eventType.phase = some .start then
    { run with
      evaluationId := run.evaluationId.or (event.dataStr "evaluation_id")
      publishedBy := run.publishedBy.or event.metadata.publishedBy
      callerRunId := run.callerRunId.or (event.dataStr "caller_run_id") }
  else run

/-- The nodes a run started a step of. -/
def visited (run : RunSummary) (event : RecordedEvent) : RunSummary :=
  match event.eventType.phase, event.dataStr "node" with
  | some .start, some node =>
    if event.eventType.subject = .step ∧ run.nodesRun.length < maxNodesRun then
      { run with nodesRun := withNew run.nodesRun node }
    else run
  | _, _ => run

def nodeStepOf (event : RecordedEvent) (node : String) : Option NodeStep :=
  match event.eventType.phase with
  | some .start => some (.started node)
  | some (.ended true) => some (.completed node)
  | some (.ended false) => some (.failed node)
  | _ => none

/-- The order a run went through its workflow. -/
def stepped (run : RunSummary) (event : RecordedEvent) : RunSummary :=
  if event.eventType.subject = .step then
    match (event.dataStr "node").bind (nodeStepOf event) with
    | none => run
    | some step =>
      if run.nodeSteps.length < maxNodeSteps then
        { run with nodeSteps := run.nodeSteps ++ [step] }
      else { run with nodeStepsDropped := true }
  else run

/-- The calls of a run, and the tokens they took. -/
def called (floats : Floats) (run : RunSummary) (event : RecordedEvent) : RunSummary :=
  let tokens := fun (one other : String) =>
    (((event.dataI64 floats one).or (event.dataI64 floats other)).map Int64.toInt).getD 0
  match event.eventType.subject, event.eventType.phase with
  | .llm, some .start => { run with llmCalls := run.llmCalls + 1 }
  | .tool, some .start => { run with toolCalls := run.toolCalls + 1 }
  | .llm, some (.ended true) =>
    { run with
      inputTokens := run.inputTokens + tokens "prompt_tokens" "input_tokens"
      outputTokens := run.outputTokens + tokens "completion_tokens" "output_tokens"
      cachedTokens := run.cachedTokens + tokens "cached_tokens" "cached_tokens" }
  | _, _ => run

/-- Whether an event ends its run, and how. -/
def endOf (event : RecordedEvent) : Option Bool :=
  match event.eventType.subject, event.eventType.phase with
  | .run, some (.ended ok) | .execution, some (.ended ok) => some ok
  | _, _ => none

/-- What an event says its run failed with. -/
def errorOf (event : RecordedEvent) : Option String :=
  ((event.dataStr "error").or (event.dataStr "message")).or (event.dataStr "reason")

def ended (run : RunSummary) (event : RecordedEvent) : RunSummary :=
  match endOf event with
  | none => run
  | some ok =>
    { run with
      status := if ok then .succeeded else .failed
      error := if ok then run.error else errorOf event
      endedAt := some event.metadata.occurredAt
      durationMs := some (Workflows.elapsedMs run.startedAt event.metadata.occurredAt) }

/-- Whether an event says that a call or an agent failed. -/
def blames (event : RecordedEvent) : Bool :=
  event.eventType = .agentFailed || event.eventType = .llmFailed

/-- A failure anywhere is kept even if the run's own end never arrives. -/
def blamed (run : RunSummary) (event : RecordedEvent) : RunSummary :=
  if blames event && run.status = .running && run.error.isNone then
    { run with error := event.dataStr "error" }
  else run

def apply (floats : Floats) (run : RunSummary) (event : RecordedEvent) : RunSummary :=
  ((called floats (((run.noted event).opened event).visited event |>.stepped event) event).ended
    event).blamed event

end RunSummary

open Library Workflows

/-- What the read model may hold. -/
structure ReadModelConfig where
  maxRuns : Nat := 5000
  workflows : WorkflowConfig := {}

structure State where
  runs : BTreeMap String RunSummary := ∅
  /-- Run ids in first-seen order. -/
  order : List String := []
  workflows : WorkflowState := {}
  measured : Asked.MeasuredState := {}

namespace State

/-- Whether a run is held and not running. -/
def finished (runs : BTreeMap String RunSummary) (runId : String) : Bool :=
  runs[runId]?.any fun run => run.status ≠ .running

/-- Drop the oldest finished runs once over the cap. -/
def evict (state : State) (maxRuns : Nat) : State :=
  if state.runs.size ≤ maxRuns then state
  else
    let walk := Evicting.walk finished (fun (runs : BTreeMap String RunSummary) runId =>
      runs.erase runId) (state.runs.size - maxRuns) state.order state.runs
    { state with runs := walk.state, order := walk.keep }

/-- What a measured run's start says. -/
def heard (state : State) (event : RecordedEvent) : State :=
  if event.eventType = .runStarted then { state with measured := state.measured.apply event }
  else state

/-- An event folded into its run, which it opens where it is the first of it. -/
def ran (floats : Floats) (state : State) (event : RecordedEvent) : State :=
  let runId := event.metadata.runId
  { state with
    order := if state.runs.contains runId then state.order else state.order ++ [runId]
    runs := Table.entry state.runs runId (.new event) (·.apply floats event) }

/-- Fold one event in.  An evaluation and a client's count open no run. -/
def apply (floats : Floats) (config : ReadModelConfig) (state : State)
    (event : RecordedEvent) : State :=
  match event.eventType.subject with
  | .eval => state
  | .client => { state with measured := state.measured.apply event }
  | _ =>
    let ran := (state.heard event).ran floats event
    { ran with workflows := ran.workflows.apply floats config.workflows event }.evict
      config.maxRuns

end State

end Aiwatcher.ReadModel
