import Aiwatcher.Workflows.Held

/-!
# Aiwatcher.Workflows.State

The projection of workflow graphs (`WorkflowState`): the catalog, the executions held for it, the
running totals, and the caps.

The order a hash map is walked in decides nothing here.
-/

namespace Aiwatcher.Workflows

open Library

structure WorkflowState where
  definitions : BTreeMap Key WorkflowDefinition := ∅
  /-- Workflow keys in first-seen order. -/
  definitionOrder : List Key := []
  held : BTreeMap Key Held := ∅
  /-- Execution keys in first-seen order. -/
  order : List Key := []
  artifactCount : Nat := 0
  messageCount : Nat := 0

namespace Held

/-- The key of the workflow an execution is held for. -/
def definitionKey (held : Held) : Key := keyOf held.summary.project held.summary.workflowId

/-- The artifacts of its nodes. -/
def artifactsHeld (held : Held) : Nat :=
  Table.tally (fun _ node => node.artifacts.length) held.nodes

end Held

namespace WorkflowState

/-! ## Caps -/

/-- Drop the least recently active workflows once over the cap, but none an execution is held
for. -/
def evictDefinitions (state : WorkflowState) (maxDefinitions : Nat) : WorkflowState :=
  if state.definitions.size ≤ maxDefinitions then state
  else
    let walk := Evicting.walk
      (fun _ key => !(BTreeMap.values state.held).any fun held => held.definitionKey = key)
      (fun (definitions : BTreeMap Key WorkflowDefinition) key => definitions.erase key)
      (state.definitions.size - maxDefinitions) state.definitionOrder state.definitions
    { state with definitions := walk.state, definitionOrder := walk.keep }

/-- Whether an execution is held and not running. -/
def finished (state : WorkflowState) (key : Key) : Bool :=
  state.held[key]?.any fun held => held.summary.status ≠ .running

/-- An execution goes, and what it was counted for. -/
def drop (state : WorkflowState) (key : Key) : WorkflowState :=
  match state.held[key]? with
  | none => state
  | some dropped =>
    { state with
      held := state.held.erase key
      messageCount := state.messageCount - dropped.messages.length
      artifactCount := state.artifactCount - dropped.artifactsHeld }

/-- The walk over the executions that are held, oldest first. -/
def evicting (state : WorkflowState) (config : WorkflowConfig) : Evicting WorkflowState Key :=
  Evicting.walk finished drop (state.held.size - config.maxExecutions) state.order state

/-- Drop the oldest finished executions once over the cap. -/
def evict (state : WorkflowState) (config : WorkflowConfig) : WorkflowState :=
  if state.held.size ≤ config.maxExecutions then state
  else
    let walk := state.evicting config
    { walk.state with order := walk.keep }

/-- Whether both totals are within their caps. -/
def within (state : WorkflowState) (config : WorkflowConfig) : Bool :=
  state.messageCount ≤ config.maxMessagesTotal && state.artifactCount ≤ config.maxArtifactsTotal

/-- The messages of an execution are given up where there are too many in all. -/
def shedMessages (state : WorkflowState) (config : WorkflowConfig) (key : Key) (held : Held) :
    WorkflowState :=
  if config.maxMessagesTotal < state.messageCount && !held.messages.isEmpty then
    { state with
      held := state.held.insert key { held with messages := [], messagesTruncated := true }
      messageCount := state.messageCount - held.messages.length }
  else state

/-- And its artifacts. -/
def shedArtifacts (state : WorkflowState) (config : WorkflowConfig) (key : Key) (held : Held) :
    WorkflowState :=
  if config.maxArtifactsTotal < state.artifactCount then
    { state with
      held := state.held.insert key
        { held with nodes := held.nodes.map fun _ node => { node with artifacts := [] } }
      artifactCount := state.artifactCount - held.artifactsHeld }
  else state

/-- One execution's detail; none is given up once both totals are within their caps. -/
def shedOne (config : WorkflowConfig) (state : WorkflowState) (key : Key) : WorkflowState :=
  if state.within config then state
  else match state.held[key]? with
    | none => state
    | some held =>
      if held.summary.status = .running then state
      else
        let shed := state.shedMessages config key held
        shed.held[key]?.elim shed (shed.shedArtifacts config key)

/-- Give up detail before giving up executions. -/
def shedDetail (state : WorkflowState) (config : WorkflowConfig) : WorkflowState :=
  state.order.foldl (shedOne config) state

/-! ## The catalog -/

/-- The executions held for a workflow, by how they stand. -/
def countsOf (state : WorkflowState) (key : Key) : Counts :=
  let held := (BTreeMap.values state.held).filter fun held => held.definitionKey = key
  let count := fun status => held.countP fun held => held.summary.status = status
  ⟨held.length, count .running, count .succeeded, count .failed⟩

/-- Recount a workflow's executions. -/
def refreshDefinition (state : WorkflowState) (key : Key) (at' : OffsetDateTime) :
    WorkflowState :=
  match state.definitions[key]? with
  | none => state
  | some definition =>
    { state with definitions := state.definitions.insert key { definition with
      counts := state.countsOf key
      lastActivityAt := max definition.lastActivityAt at' } }

/-- A definition takes its place in the catalog. -/
def define (state : WorkflowState) (key : Key) (definition : WorkflowDefinition) :
    WorkflowState :=
  { state with
    definitionOrder := state.definitionOrder ++ [key]
    definitions := state.definitions.insert key definition }

/-- A workflow with no declaration still gets a catalog row. -/
def bumpDefinition (state : WorkflowState) (project : Option Store.ProjectScope)
    (workflowId : String) (at' : OffsetDateTime) : WorkflowState :=
  let key := keyOf project workflowId
  if state.definitions.contains key then state
  else state.define key ⟨workflowId, project, workflowId, none, [], [], at', at', {}⟩

/-- The catalog entry a declaration leaves. -/
def declared (state : WorkflowState) (event : RecordedEvent) (workflowId : String) :
    WorkflowState :=
  let project := event.metadata.project
  let key := keyOf project workflowId
  let nodes := declaredNodes event.data
  let edges := declaredEdges event.data
  let version := (event.dataStr "version").or (event.dataStr "workflow_version")
  let name := ((event.dataStr "name").or (event.dataStr "workflow_name")).getD workflowId
  let at' := event.metadata.occurredAt
  match state.definitions[key]? with
  | some existing =>
    let heard := { existing with name, lastActivityAt := max existing.lastActivityAt at' }
    -- a declaration without nodes says that the workflow exists, not that it is empty
    let shaped := if nodes.isEmpty then heard else { heard with version, nodes, edges }
    { state with definitions := state.definitions.insert key shaped }
  | none => state.define key ⟨workflowId, project, name, version, nodes, edges, at', at', {}⟩

/-- The executions of a workflow, in its project, that pick its shape up. -/
def adopted (state : WorkflowState) (project : Option Store.ProjectScope) (workflowId : String)
    (config : WorkflowConfig) : WorkflowState :=
  match state.definitions[keyOf project workflowId]? with
  | none => state
  | some definition =>
    { state with held := state.held.map fun _ held =>
      if held.summary.workflowId = workflowId ∧ held.summary.project = project then
        (held.adopt definition config.maxNodesPerExecution).recount
      else held }

/-- Upsert the catalog entry from a declaration. -/
def declare (state : WorkflowState) (event : RecordedEvent) (workflowId : String)
    (config : WorkflowConfig) : WorkflowState :=
  ((state.declared event workflowId).adopted event.metadata.project workflowId
    config).evictDefinitions config.maxDefinitions

/-! ## One event -/

/-- The execution an event is the first of, with the shape the catalog knows. -/
def opened (state : WorkflowState) (event : RecordedEvent) (workflowId executionId : String)
    (config : WorkflowConfig) : WorkflowState :=
  let key := keyOf event.metadata.project executionId
  if state.held.contains key then state
  else
    let new := Held.new event executionId workflowId
    let held := state.definitions[keyOf event.metadata.project workflowId]?.elim new fun definition =>
      new.adopt definition config.maxNodesPerExecution
    { state with order := state.order ++ [key], held := state.held.insert key held }.bumpDefinition
      event.metadata.project workflowId event.metadata.occurredAt

/-- An event folded into the execution it belongs to. -/
def foldedAt (floats : Floats) (config : WorkflowConfig) (state : WorkflowState) (key : Key)
    (event : RecordedEvent) : WorkflowState :=
  match state.held[key]? with
  | none => state
  | some held =>
    let folded := held.fold floats config event
    { state with
      held := state.held.insert key folded.held
      artifactCount := state.artifactCount + folded.artifacts
      messageCount := state.messageCount + folded.messages }

/-- The projection with an event folded in, and nothing given up for it yet. -/
def folded (floats : Floats) (config : WorkflowConfig) (state : WorkflowState)
    (event : RecordedEvent) (workflowId executionId : String) : WorkflowState :=
  let declared := if event.eventType = .workflowDeclared then
    state.declare event workflowId config else state
  foldedAt floats config (declared.opened event workflowId executionId config)
    (keyOf event.metadata.project executionId) event

/-- Fold one event in. -/
def apply (floats : Floats) (config : WorkflowConfig) (state : WorkflowState)
    (event : RecordedEvent) : WorkflowState :=
  match event.metadata.workflowId, event.metadata.workflowRunId with
  | some workflowId, some executionId =>
    let shed := ((folded floats config state event workflowId executionId).evict
      config).shedDetail config
    (shed.refreshDefinition (keyOf event.metadata.project workflowId)
      event.metadata.occurredAt).evictDefinitions config.maxDefinitions
  | _, _ => state

end WorkflowState

end Aiwatcher.Workflows
