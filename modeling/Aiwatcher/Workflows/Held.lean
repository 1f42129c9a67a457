import Aiwatcher.Periods.Fold

/-!
# Aiwatcher.Workflows.Held

The shape an orchestration declared (`workflows.rs`), and how a declaration is read.

One execution of a workflow as it is held in memory, and what each kind of event does to it
(`workflows.rs`).
-/

namespace Aiwatcher.Workflows

open Library

/-! ## Keys -/

/-- What a row is held under: its project's key, then its own id. -/
structure Key where
  scope : String
  id : String
  deriving DecidableEq, Repr

namespace Key

instance : Ord Key where
  compare := compareLex (compareOn scope) (compareOn id)

instance : Std.TransOrd Key :=
  inferInstanceAs (Std.TransCmp (compareLex (compareOn scope) (compareOn id)))

instance : Std.LawfulEqOrd Key :=
  Library.Table.lawfulEq_compareLex fun a b => by
    cases a
    cases b
    simp_all

end Key

/-- The key one event's row takes. -/
def keyOf (project : Option Store.ProjectScope) (id : String) : Key := ⟨Periods.keyOf project, id⟩

/-! ## What a producer declared -/

/-- One node of a declared graph. -/
structure WorkflowNode where
  id : String
  name : String
  kind : Option String
  agent : Option String
  deriving DecidableEq, Repr

structure WorkflowEdge where
  source : String
  target : String
  label : Option String
  deriving DecidableEq, Repr

/-- A workflow's executions, by how they stand. -/
structure Counts where
  executions : Nat := 0
  running : Nat := 0
  succeeded : Nat := 0
  failed : Nat := 0
  deriving DecidableEq, Repr

/-- A workflow as the catalog holds it. -/
structure WorkflowDefinition where
  workflowId : String
  project : Option Store.ProjectScope
  name : String
  /-- Not read beyond its presence: a changed version replaces the shape. -/
  version : Option String
  nodes : List WorkflowNode
  edges : List WorkflowEdge
  declaredAt : OffsetDateTime
  lastActivityAt : OffsetDateTime
  counts : Counts
  deriving DecidableEq, Repr

/-- A list without what repeats an earlier key. -/
def distinct {α κ : Type} [DecidableEq κ] (key : α → κ) (xs : List α) : List α :=
  xs.foldl (fun kept x => if kept.any fun other => key other = key x then kept else kept ++ [x]) []

/-- A text that is there and not empty. -/
def text (object : Value) (key : String) : Option String :=
  ((object.get key).bind Value.asStr).filter fun value => !value.isEmpty

/-- One declared node: a bare string, or an object that names one. -/
def nodeOf : Value → Option WorkflowNode
  | .string id => some ⟨id, id, none, none⟩
  | .object fields =>
    let object := Value.object fields
    ((((object.get "id").or (object.get "node")).or (object.get "name")).bind Value.asStr).map
      fun id =>
        { id
          name := (text object "name").getD id
          kind := ((text object "kind").or (text object "type")).or (text object "step_type")
          agent := (text object "agent").or (text object "agent_id") }
  | _ => none

def declaredNodes (data : Value) : List WorkflowNode :=
  distinct WorkflowNode.id ((((data.get "nodes").bind Value.asArray).getD []).filterMap nodeOf
    |>.filter fun node => !node.id.isEmpty)

/-- One declared edge: a pair, or an object that names both ends. -/
def edgeOf : Value → Option WorkflowEdge
  | .array (source :: target :: _) =>
    source.asStr.bind fun source => target.asStr.map fun target => ⟨source, target, none⟩
  | .object fields =>
    let object := Value.object fields
    ((text object "from").or (text object "source")).bind fun source =>
      ((text object "to").or (text object "target")).map fun target =>
        ⟨source, target, text object "label"⟩
  | _ => none

def declaredEdges (data : Value) : List WorkflowEdge :=
  distinct id ((((data.get "edges").bind Value.asArray).getD []).filterMap edgeOf
    |>.filter fun edge => !edge.source.isEmpty && !edge.target.isEmpty)

/-- Which node of the graph an event belongs to. -/
def nodeKey (event : RecordedEvent) : Option String :=
  (["node", "node_id", "stage", "task", "name", "call_id"].findSome? event.dataStr).filter
    fun value => !value.isEmpty

/-- The last path segment of a uri. -/
def fileNameOf (uri : String) : String :=
  let last := String.ofList (uri.toList.reverse.takeWhile (· ≠ '/')).reverse
  if last.isEmpty then uri else last

/-! ## Caps -/

/-- What the workflow projection may hold. -/
structure WorkflowConfig where
  maxDefinitions : Nat := 200
  maxExecutions : Nat := 1000
  maxNodesPerExecution : Nat := 200
  maxArtifactsTotal : Nat := 20000
  maxMessagesPerExecution : Nat := 500
  maxMessagesTotal : Nat := 50000
  deriving DecidableEq, Repr

/-! ## What a traversal did -/

/-- Where one node of one execution got to. -/
inductive NodeStatus where
  /-- declared, and not started by anything -/
  | pending
  | running
  | succeeded
  | failed
  deriving DecidableEq, Repr

/-- Where a whole traversal got to. -/
inductive ExecutionStatus where
  | running
  | succeeded
  | failed
  deriving DecidableEq, Repr

/-- Something a node produced, by reference. -/
structure Artifact where
  name : String
  uri : String
  mediaType : Option String
  sizeBytes : Option Int64
  digest : Option String
  producedAt : OffsetDateTime
  deriving DecidableEq, Repr

/-- One agent addressing another. -/
structure AgentMessage where
  sender : String
  recipient : String
  kind : Option String
  channel : Option String
  node : Option String
  at' : OffsetDateTime
  deriving DecidableEq, Repr

/-- One node of one execution. -/
structure NodeState where
  nodeId : String
  name : String
  kind : Option String := none
  status : NodeStatus := .pending
  /-- Whether the declared graph mentions this node. -/
  declared : Bool
  startedAt : Option OffsetDateTime := none
  endedAt : Option OffsetDateTime := none
  durationMs : Option Int := none
  /-- How many span keys this node was started under. -/
  attempts : Nat := 0
  agents : List String := []
  artifacts : List Artifact := []
  runId : Option String := none
  spanId : Option SpanId := none
  error : Option String := none
  publishers : List String := []
  deriving DecidableEq, Repr

/-- One row in the executions list. -/
structure ExecutionSummary where
  workflowRunId : String
  workflowId : String
  project : Option Store.ProjectScope
  version : Option String := none
  status : ExecutionStatus := .running
  startedAt : OffsetDateTime
  lastActivityAt : OffsetDateTime
  endedAt : Option OffsetDateTime := none
  durationMs : Option Int := none
  nodesTotal : Nat := 0
  nodesPending : Nat := 0
  nodesRunning : Nat := 0
  nodesSucceeded : Nat := 0
  nodesFailed : Nat := 0
  agents : List String := []
  artifacts : Nat := 0
  messages : Nat := 0
  runs : List String := []
  error : Option String := none
  deriving DecidableEq, Repr

/-- What a managed execution published of its own life. -/
structure ManagedLifecycle where
  status : ExecutionStatus
  endedAt : Option OffsetDateTime
  error : Option String
  deriving DecidableEq, Repr

/-- One execution as it is held in memory. -/
structure Held where
  summary : ExecutionSummary
  managed : Option ManagedLifecycle := none
  nodeOrder : List String := []
  nodes : BTreeMap String NodeState := ∅
  edges : List WorkflowEdge := []
  messages : List AgentMessage := []
  messagesTruncated : Bool := false
  /-- Span keys counted as an attempt, per node. -/
  attempts : BTreeMap String (BTreeMap String Unit) := ∅
  artifactUris : BTreeMap String Unit := ∅
  messageIds : BTreeMap String Unit := ∅
  seenRuns : BTreeMap String Unit := ∅
  /-- Runs started and not yet ended. -/
  openRuns : BTreeMap String Unit := ∅
  finishedRuns : BTreeMap String Unit := ∅

/-- Whole milliseconds of an interval, none of them negative. -/
def elapsedMs (start stop : OffsetDateTime) : Int := max ((stop - start).tdiv 1000000) 0

namespace NodeState

def declaredFrom (node : WorkflowNode) : NodeState where
  nodeId := node.id
  name := node.name
  kind := node.kind
  declared := true

def observed (nodeId : String) : NodeState where
  nodeId
  name := nodeId
  declared := false

/-- A node that ran before it was declared. -/
def promoted (state : NodeState) (node : WorkflowNode) : NodeState :=
  { state with declared := true, name := node.name, kind := state.kind.or node.kind }

end NodeState

namespace Held

def new (event : RecordedEvent) (workflowRunId workflowId : String) : Held where
  summary :=
    { workflowRunId
      workflowId
      project := event.metadata.project
      startedAt := event.metadata.occurredAt
      lastActivityAt := event.metadata.occurredAt }

/-- `node_mut`: a change of a node, which is made where it is not there and there is room. -/
def onNode (held : Held) (nodeId : String) (maxNodes : Nat) (change : NodeState → NodeState) :
    Held :=
  if held.nodes.contains nodeId then
    { held with nodes := Table.entry held.nodes nodeId (.observed nodeId) change }
  else if maxNodes ≤ held.nodes.size then held
  else
    { held with
      nodeOrder := held.nodeOrder ++ [nodeId]
      nodes := Table.entry held.nodes nodeId (.observed nodeId) change }

/-- Whether `node_mut` finds a node, or may make it. -/
def hasNode (held : Held) (nodeId : String) (maxNodes : Nat) : Bool :=
  held.nodes.contains nodeId || held.nodes.size < maxNodes

/-- The declared nodes nothing has started yet, until there is no room for one. -/
def adoptNodes (maxNodes : Nat) : List WorkflowNode → Held → Held
  | [], held => held
  | node :: rest, held =>
    match held.nodes[node.id]? with
    | some existing =>
      adoptNodes maxNodes rest
        { held with nodes := held.nodes.insert node.id (existing.promoted node) }
    | none =>
      if maxNodes ≤ held.nodes.size then held
      else
        adoptNodes maxNodes rest
          { held with
            nodeOrder := held.nodeOrder ++ [node.id]
            nodes := held.nodes.insert node.id (.declaredFrom node) }

/-- Apply a declared shape.  Declared nodes lead, in the order they are declared. -/
def adopt (held : Held) (definition : WorkflowDefinition) (maxNodes : Nat) : Held :=
  let declared := definition.nodes.map WorkflowNode.id
  let adopted := adoptNodes maxNodes definition.nodes
    { held with
      summary := { held.summary with version := definition.version }
      edges := definition.edges }
  { adopted with
    nodeOrder := (declared ++ adopted.nodeOrder.filter fun id => !declared.contains id).filter
      adopted.nodes.contains }

/-- An agent, unless it is known. -/
def noteAgent (held : Held) (agent : String) : Held :=
  if !agent.isEmpty && !held.summary.agents.contains agent then
    { held with summary := { held.summary with agents := held.summary.agents ++ [agent] } }
  else held

/-! ## Derived from the nodes and the runs -/

/-- How many nodes stand so. -/
def countNodes (held : Held) (status : NodeStatus) : Nat :=
  (BTreeMap.values held.nodes).countP fun node => node.status = status

/-- Failed where anything in it failed; running where a run is open or a node is running, or
nothing finished; succeeded otherwise. -/
def observedStatus (held : Held) : ExecutionStatus :=
  if 0 < held.countNodes .failed || held.summary.error.isSome then .failed
  else if !held.openRuns.isEmpty || 0 < held.countNodes .running ||
      !(!held.finishedRuns.isEmpty || 0 < held.countNodes .succeeded) then .running
  else .succeeded

/-- The end of an execution that is not running: the last of its nodes and its runs. -/
def observedEnd (held : Held) : OffsetDateTime :=
  max ((((BTreeMap.values held.nodes).filterMap NodeState.endedAt).max?).getD
    held.summary.startedAt) (held.summary.endedAt.getD held.summary.startedAt)

/-- Everything a row counts. -/
def counted (held : Held) : ExecutionSummary :=
  { held.summary with
    nodesTotal := held.nodes.size
    nodesPending := held.countNodes .pending
    nodesRunning := held.countNodes .running
    nodesSucceeded := held.countNodes .succeeded
    nodesFailed := held.countNodes .failed
    artifacts := held.artifactUris.size
    messages := held.messageIds.size
    runs := held.seenRuns.keys }

/-- Recompute everything derived from the nodes and the runs. -/
def recount (held : Held) : Held :=
  match held.managed with
  | some managed =>
    { held with summary := { held.counted with
      status := managed.status
      endedAt := managed.endedAt
      error := managed.error
      durationMs := managed.endedAt.map (elapsedMs held.summary.startedAt) } }
  | none =>
    if held.observedStatus = .running then
      { held with summary := { held.counted with
        status := .running, endedAt := none, durationMs := none } }
    else
      { held with summary := { held.counted with
        status := held.observedStatus
        endedAt := some held.observedEnd
        durationMs := some (elapsedMs held.summary.startedAt held.observedEnd) } }

/-! ## What an event does -/

/-- What the engine says of an execution it manages. -/
def lifecycleOf (event : RecordedEvent) : Option ManagedLifecycle :=
  match event.eventType with
  | .executionCompleted => some ⟨.succeeded, some event.metadata.occurredAt, none⟩
  | .executionFailed => some ⟨.failed, some event.metadata.occurredAt,
      some ((event.dataStr "reason").getD "the execution failed")⟩
  | .executionCancelled => some ⟨.failed, some event.metadata.occurredAt,
      some ((event.dataStr "reason").getD "the execution was cancelled")⟩
  | .executionRequested | .executionStarted | .executionResumed | .executionPaused
  | .executionAwaitingInput => some ⟨.running, none, none⟩
  | _ => none

def applyExecution (held : Held) (event : RecordedEvent) : Held :=
  (lifecycleOf event).elim held fun managed => { held with managed := some managed }

/-- What an event says went wrong. -/
def errorOf (event : RecordedEvent) : Option String :=
  (event.dataStr "error").or (event.dataStr "message")

def applyRun (held : Held) (event : RecordedEvent) : Held :=
  match event.eventType.phase with
  | some .start =>
    if held.finishedRuns.contains event.metadata.runId then held
    else { held with openRuns := held.openRuns.insert event.metadata.runId () }
  | some (.ended ok) =>
    { held with
      openRuns := held.openRuns.erase event.metadata.runId
      finishedRuns := held.finishedRuns.insert event.metadata.runId ()
      summary := { held.summary with
        endedAt := some ((held.summary.endedAt.map (max · event.metadata.occurredAt)).getD
          event.metadata.occurredAt)
        error := if !ok && held.summary.error.isNone then
          some ((errorOf event).getD "the run failed") else held.summary.error } }
  | _ => held

/-- A step's start; `counted` where its span key is new to the node. -/
def startStep (counted : Bool) (attempts : Nat) (at' : OffsetDateTime) (node : NodeState) :
    NodeState :=
  let started := if counted || node.startedAt.isNone then
    some ((node.startedAt.map (min · at')).getD at') else node.startedAt
  -- a retry reopens a node that had already finished
  if counted && 1 < attempts then
    { node with
      startedAt := started, endedAt := none, durationMs := none, error := none, status := .running }
  else { node with startedAt := started, status := .running }

def endStep (ok : Bool) (error : Option String) (at' : OffsetDateTime) (node : NodeState) :
    NodeState :=
  { node with
    status := if ok then .succeeded else .failed
    endedAt := some at'
    durationMs := node.startedAt.map fun started => elapsedMs started at'
    error := if ok then node.error else error }

/-- What a step says of a node whatever its phase. -/
def noteStep (event : RecordedEvent) (node : NodeState) : NodeState :=
  { node with
    kind := node.kind.or event.stepType
    runId := some event.metadata.runId
    spanId := some event.metadata.spanId
    agents := match event.metadata.agentId with
      | some agent => if node.agents.contains agent then node.agents else node.agents ++ [agent]
      | none => node.agents
    publishers := match event.dataStr "published_by" with
      | some publisher =>
        if node.publishers.contains publisher then node.publishers
        else node.publishers ++ [publisher]
      | none => node.publishers }

/-- The span keys a node was started under. -/
def attemptsOf (held : Held) (nodeId : String) : BTreeMap String Unit :=
  held.attempts[nodeId]?.getD ∅

/-- The node a step's event leaves. -/
def stepNode (counted : Bool) (attempts : Nat) (event : RecordedEvent) (node : NodeState) :
    NodeState :=
  let noted := noteStep event node
  let stepped := match event.eventType.phase with
    | some .start => startStep counted attempts event.metadata.occurredAt noted
    | some (.ended ok) => endStep ok (errorOf event) event.metadata.occurredAt noted
    | _ => noted
  { stepped with attempts := max attempts stepped.attempts }

def applyStep (held : Held) (event : RecordedEvent) (config : WorkflowConfig) : Held :=
  match nodeKey event with
  | none => held
  | some nodeId =>
    let seen := held.attemptsOf nodeId
    let starts := event.eventType.phase = some .start
    let seenNow := if starts then seen.insert event.metadata.spanKey () else seen
    let counted := starts && !seen.contains event.metadata.spanKey
    let attempts := min seenNow.size 4294967295
    { held with attempts := held.attempts.insert nodeId seenNow }.onNode nodeId
      config.maxNodesPerExecution (stepNode counted attempts event)

/-- The uri an artifact is at. -/
def uriOf (event : RecordedEvent) : Option String :=
  (((event.dataStr "uri").or (event.dataStr "url")).or (event.dataStr "path")).filter
    fun uri => !uri.isEmpty

def artifactOf (floats : Floats) (event : RecordedEvent) (uri : String) : Artifact where
  name := ((event.dataStr "name").or (event.dataStr "artifact")).getD (fileNameOf uri)
  uri
  mediaType := (event.dataStr "media_type").or (event.dataStr "content_type")
  sizeBytes := (event.dataI64 floats "size_bytes").or (event.dataI64 floats "size")
  digest := (event.dataStr "digest").or (event.dataStr "sha256")
  producedAt := event.metadata.occurredAt

/-- The execution, and whether a new artifact was recorded. -/
def applyArtifact (floats : Floats) (held : Held) (event : RecordedEvent)
    (config : WorkflowConfig) : Held × Bool :=
  match uriOf event with
  | none => (held, false)
  | some uri =>
    let nodeId := (nodeKey event).getD "unassigned"
    let key := nodeId ++ "\x1f" ++ uri
    if held.artifactUris.contains key then (held, false)
    else
      ({ held with artifactUris := held.artifactUris.insert key () }.onNode nodeId
        config.maxNodesPerExecution fun node =>
          { node with artifacts := node.artifacts ++ [artifactOf floats event uri] },
        held.hasNode nodeId config.maxNodesPerExecution)

/-- Who a message is from, and whom it is to. -/
def endsOf (event : RecordedEvent) : Option (String × String) :=
  (((event.dataStr "from").or (event.dataStr "sender")).or event.metadata.agentId).bind
    fun sender => ((event.dataStr "to").or (event.dataStr "recipient")).map
      fun recipient => (sender, recipient)

/-- The execution, and whether a new message was recorded.  The list is capped, the count is
not. -/
def applyMessage (held : Held) (event : RecordedEvent) (config : WorkflowConfig) : Held × Bool :=
  match endsOf event with
  | none => (held, false)
  | some (sender, recipient) =>
    if held.messageIds.contains event.metadata.messageId then (held, false)
    else
      let noted := ({ held with
        messageIds := held.messageIds.insert event.metadata.messageId () }.noteAgent
          sender).noteAgent recipient
      if noted.messages.length < config.maxMessagesPerExecution then
        ({ noted with messages := noted.messages ++
          [⟨sender, recipient, (event.dataStr "kind").or (event.dataStr "message_type"),
            event.dataStr "channel", nodeKey event, event.metadata.occurredAt⟩] }, true)
      else ({ noted with messagesTruncated := true }, true)

/-- What every event says of its execution. -/
def noteEvent (held : Held) (event : RecordedEvent) : Held :=
  let heard := { held with summary := { held.summary with
    lastActivityAt := max held.summary.lastActivityAt event.metadata.occurredAt
    startedAt := min held.summary.startedAt event.metadata.occurredAt } }
  let noted := event.metadata.agentId.elim heard heard.noteAgent
  { noted with seenRuns := noted.seenRuns.insert event.metadata.runId () }

/-- An event folded into its execution, with the artifacts and messages it added. -/
structure Folded where
  held : Held
  artifacts : Nat := 0
  messages : Nat := 0

def applyEvent (floats : Floats) (config : WorkflowConfig) (held : Held) (event : RecordedEvent) :
    Folded :=
  match event.eventType.subject with
  | .execution => { held := held.applyExecution event }
  | .run => { held := held.applyRun event }
  | .step => { held := held.applyStep event config }
  | .workflow =>
    if event.eventType = .artifactProduced then
      let applied := applyArtifact floats held event config
      { held := applied.1, artifacts := applied.2.toNat }
    else { held }
  | .agent =>
    if event.eventType = .agentMessage then
      let applied := held.applyMessage event config
      { held := applied.1, messages := applied.2.toNat }
    else { held }
  | _ => { held }

/-- One event folded in, and everything recounted. -/
def fold (floats : Floats) (config : WorkflowConfig) (held : Held) (event : RecordedEvent) :
    Folded :=
  let folded := applyEvent floats config (held.noteEvent event) event
  { folded with held := folded.held.recount }

end Held

end Aiwatcher.Workflows
