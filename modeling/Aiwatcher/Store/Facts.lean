import Aiwatcher.Engine.Canonical
import Aiwatcher.Events
import Aiwatcher.Store.Handle

/-!
# Aiwatcher.Store.Facts

What a committed decision publishes onto the event log (`facts.rs`): the envelopes of each
fact of the decision, and the ids they are published under.

An id is derived from the message the decision was made on, the place of the fact among the
facts decided, and the place of the envelope among those of the fact.
-/

namespace Aiwatcher.Store

open Engine List

/-! ## Envelopes -/

/-- What every fact this engine publishes says it is. -/
def publisherService : String := "aiwatcher-execution"

/-- Everything a fact needs that the event itself does not carry. -/
structure FactContext where
  execution : String
  plan : ExecutionPlan
  owner : ExecutionOwner
  occurredAt : OffsetDateTime
  cause : String

/-- What the engine fills in of an envelope. -/
structure Fact where
  eventId : Option String
  eventType : EventType
  occurredAt : OffsetDateTime
  runId : String
  workflowId : String
  workflowRunId : String
  correlationId : String
  causationId : String
  service : String
  data : Value

def ownerText : ExecutionOwner → String
  | .localDecider => "local"
  | .worker => "worker"
  | .unknown text => text

def failureClassWord : FailureClass → String
  | .validation => "validation"
  | .userCode => "user_code"
  | .transient => "transient"
  | .timeout => "timeout"
  | .infrastructure => "infrastructure"
  | .policy => "policy"

/-- What a node is called in the graph. -/
def nodeKind : RuntimeBinding → String
  | .flowPhp _ | .dataFusion _ | .duckDb _ | .evaluationCases _ | .evaluationTraces _ =>
    "retriever"
  | .marimo _ | .pythonTask _ | .containerJob _ | .publishDataset _ | .scoreEvaluation _
  | .judgeEvaluation _ | .externalEvaluation _ => "chain"
  | .humanInput _ => "guardrail"

/-- `object.insert`: entries stay in key order. -/
def withEntry (key : String) (value : Value) : Value → Value
  | .object entries =>
    .object (entries.filter (fun entry => entry.1 < key) ++
      (key, value) :: entries.filter (fun entry => key < entry.1))
  | other => other

/-- The plan as the workflow fold reads a declaration. -/
def declaration (plan : ExecutionPlan) : Value :=
  .object [
    ("edges", .array (plan.edges.map PlanEdge.toValue)),
    ("name", .string plan.definitionName),
    ("nodes", .array (plan.steps.map fun step => .object [
      ("id", .string step.id), ("kind", .string (nodeKind step.runtime)),
      ("name", .string step.id)])),
    ("version", .string plan.planId),
    ("workflow_id", .string plan.definitionName)]

namespace FactContext

variable (context : FactContext)

def base : Value :=
  .object [("owner", .string (ownerText context.owner)), ("plan_id", .string context.plan.planId)]

/-- A step fact: which node, which try, and who ran it. -/
def stepPayload (stepId : String) (attempt : UInt32) : Value :=
  .object [
    ("attempt", ofU32 attempt),
    ("call_id", .string s!"{stepId}/{attempt}"),
    ("name", .string stepId),
    ("node", .string stepId),
    ("plan_id", .string context.plan.planId),
    ("published_by", .string "engine"),
    ("step_type", .string (((context.plan.step stepId).map fun step =>
      nodeKind step.runtime).getD "chain"))]

def envelope (eventType : EventType) (data : Value) : Fact where
  eventId := none
  eventType := eventType
  occurredAt := context.occurredAt
  runId := context.execution
  workflowId := context.plan.definitionName
  workflowRunId := context.execution
  correlationId := context.execution
  causationId := context.cause
  service := publisherService
  data := data

end FactContext

/-- An artifact as a pointer with a digest, never as rows. -/
def artifactPayload (stepId : String) (artifact : ArtifactRef) : Value :=
  .object [
    ("digest", .string artifact.digest),
    ("kind", .string (artifactKindWord artifact.kind)),
    ("media_type", .string artifact.contentType),
    ("name", .string artifact.name),
    ("node", .string stepId),
    ("size_bytes", (artifact.sizeBytes.map ofU64).getD .null),
    ("uri", .string artifact.uri)]

/-- The envelopes of one fact before they are named; none for a fact that stays in the
store. -/
def unnamed (context : FactContext) : WorkflowEvent → List Fact
  | .executionRequested _ _ _ _ _ requestedBy _ => [
      context.envelope .workflowDeclared (declaration context.plan),
      context.envelope .executionRequested (.object [
        ("owner", .string (ownerText context.owner)),
        ("plan_id", .string context.plan.planId),
        ("requested_by", .string requestedBy),
        ("steps", ofU64 (UInt64.ofNat context.plan.steps.length))])]
  | .executionStarted => [context.envelope .executionStarted context.base]
  | .stepStarted stepId attempt =>
    [context.envelope .stepStarted (context.stepPayload stepId attempt)]
  | .stepCompleted stepId attempt outputs _ =>
    context.envelope .stepCompleted (context.stepPayload stepId attempt) ::
      outputs.map fun artifact =>
        context.envelope .artifactProduced (artifactPayload stepId artifact)
  | .stepFailed stepId attempt error =>
    [context.envelope .stepFailed ((context.stepPayload stepId attempt
      |> withEntry "error" (.string error.message))
      |> withEntry "failure_class" (.string (failureClassWord error.failureClass)))]
  -- a hit is a completed step, with no start beside it: there was no attempt
  | .stepCacheHit stepId attempt cacheKey _ =>
    [context.envelope .stepCompleted ((context.stepPayload stepId attempt
      |> withEntry "state_name" (.string "Cached"))
      |> withEntry "cache_key" (.string cacheKey))]
  | .inputRequested stepId _ request =>
    [context.envelope .executionAwaitingInput ((context.base
      |> withEntry "node" (.string stepId))
      |> withEntry "role" (.string request.role))]
  | .executionPaused => [context.envelope .executionPaused context.base]
  | .executionResumed => [context.envelope .executionResumed context.base]
  | .executionCompleted => [context.envelope .executionCompleted context.base]
  | .executionFailed reason =>
    [context.envelope .executionFailed (context.base |> withEntry "reason" (.string reason))]
  | .executionCancelled => [context.envelope .executionCancelled context.base]
  | .stepScheduled .. | .stepRetryScheduled .. | .stepSkipped .. | .inputProvided ..
  | .executionCancelling .. => []

/-! ## Names -/

/-- What the id of an envelope is derived from. -/
def factName (execution cause : String) (ordinal : Nat) : String :=
  s!"aiwatcher/execution/fact/{execution}/{cause}/{ordinal}"

/-- The cause of one of the facts of a decision: the message and the place of the fact. -/
def causeOf (messageId : String) (ordinal : Nat) : String := s!"{messageId}#{ordinal}"

/-- `envelopes_for`: the envelopes one committed fact publishes. -/
def envelopesFor (d : Digests) (event : WorkflowEvent) (context : FactContext) : List Fact :=
  (unnamed context event).zipIdx.map fun (envelope, ordinal) =>
    { envelope with eventId := some (d.deriveUuid (factName context.execution context.cause ordinal)) }

/-- The envelopes of the facts of one decision, `context.cause` being the message it was made
on. -/
def decisionEnvelopes (d : Digests) (context : FactContext) (events : List WorkflowEvent) :
    List Fact :=
  events.zipIdx.flatMap fun (event, ordinal) =>
    envelopesFor d event { context with cause := causeOf context.cause ordinal }

/-! ## Rows -/

/-- An envelope as it is stored; `serialise` is its JSON. -/
def Fact.stored (serialise : Fact → Value) (fact : Fact) : EventEnvelope :=
  ⟨fact.eventId, fact.eventType.asStr, fact.occurredAt, serialise fact⟩

/-- `facts_of`: what the outputs of one decision would publish, without a store. -/
def factsOf (d : Digests) (serialise : Fact → Value) (context : FactContext)
    (events : List WorkflowEvent) : List OutboxMessage :=
  outboxRows ((decisionEnvelopes d context events).map (·.stored serialise)) context.execution

/-- A handler of one execution that publishes its facts. -/
def Deployment.publishing (env : Deployment) (serialise : Fact → Value) (execution : String) :
    Deployment :=
  { env with
    envelopes := fun run outputs metadata =>
      (decisionEnvelopes env.digests
        ⟨execution, run.plan, run.owner, metadata.occurredAt, metadata.messageId⟩
        (outputs.filterMap (·.message.event?))).map (·.stored serialise) }

theorem facts_publishing (env : Deployment) (serialise : Fact → Value) (execution : String)
    (run : Execution) (outputs : List PendingMessage) (metadata : MessageMetadata) :
    (env.publishing serialise execution).facts execution (.active run) outputs metadata =
      factsOf env.digests serialise
        ⟨execution, run.plan, run.owner, metadata.occurredAt, metadata.messageId⟩
        (outputs.filterMap (·.message.event?)) := rfl

/-! ## Which envelopes, and under which ids -/

/-- The types of the envelopes of one fact, whatever run it is of. -/
def factTypes : WorkflowEvent → List EventType
  | .executionRequested .. => [.workflowDeclared, .executionRequested]
  | .executionStarted => [.executionStarted]
  | .stepStarted .. => [.stepStarted]
  | .stepCompleted _ _ outputs _ => .stepCompleted :: outputs.map fun _ => .artifactProduced
  | .stepFailed .. => [.stepFailed]
  | .stepCacheHit .. => [.stepCompleted]
  | .inputRequested .. => [.executionAwaitingInput]
  | .executionPaused => [.executionPaused]
  | .executionResumed => [.executionResumed]
  | .executionCompleted => [.executionCompleted]
  | .executionFailed _ => [.executionFailed]
  | .executionCancelled => [.executionCancelled]
  | .stepScheduled .. | .stepRetryScheduled .. | .stepSkipped .. | .inputProvided ..
  | .executionCancelling .. => []

theorem eventType_unnamed (context : FactContext) (event : WorkflowEvent) :
    (unnamed context event).map (·.eventType) = factTypes event := by
  cases event <;> simp [unnamed, factTypes, FactContext.envelope, Function.comp_def]

theorem length_unnamed (context : FactContext) (event : WorkflowEvent) :
    (unnamed context event).length = (factTypes event).length := by
  rw [← eventType_unnamed context, length_map]

/-- Where the envelopes of a decision stand: the place of the fact, and the place of the
envelope among those of the fact. -/
def factPlaces (events : List WorkflowEvent) : List (Nat × Nat) :=
  events.zipIdx.flatMap fun (event, ordinal) =>
    (List.range (factTypes event).length).map fun place => (ordinal, place)

/-- What the rows of a decision are derived from. -/
def rowName (execution messageId : String) (place : Nat × Nat) : String :=
  factName execution (causeOf messageId place.1) place.2

theorem eventId_envelopesFor (d : Digests) (event : WorkflowEvent) (context : FactContext) :
    (envelopesFor d event context).map (·.eventId) =
      (List.range (factTypes event).length).map fun ordinal =>
        some (d.deriveUuid (factName context.execution context.cause ordinal)) := by
  rw [← length_unnamed context event, envelopesFor, List.map_map, range_eq_range',
    ← zipIdx_map_snd 0 (unnamed context event), List.map_map]
  rfl

theorem messageId_outboxRows (envelopes : List EventEnvelope) (execution : String) :
    (outboxRows envelopes execution).map (·.messageId) = envelopes.filterMap (·.eventId) := by
  induction envelopes with
  | nil => rfl
  | cons envelope envelopes ih =>
    unfold outboxRows at ih ⊢
    cases hid : envelope.eventId with
    | none => simpa [hid] using ih
    | some id => simpa [hid] using ih

/-- **The ids of a decision**: the message it was made on and the facts say them all. -/
theorem messageId_factsOf (d : Digests) (serialise : Fact → Value) (context : FactContext)
    (events : List WorkflowEvent) :
    (factsOf d serialise context events).map (·.messageId) =
      (factPlaces events).map fun place =>
        d.deriveUuid (rowName context.execution context.cause place) := by
  have hids : (decisionEnvelopes d context events).map (·.eventId) =
      (factPlaces events).map fun place =>
        some (d.deriveUuid (rowName context.execution context.cause place)) := by
    simp only [decisionEnvelopes, factPlaces, map_flatMap, eventId_envelopesFor, List.map_map]
    rfl
  calc (factsOf d serialise context events).map (·.messageId)
      = (decisionEnvelopes d context events).filterMap (·.eventId) := by
        rw [factsOf, messageId_outboxRows, filterMap_map]
        rfl
    _ = ((decisionEnvelopes d context events).map (·.eventId)).filterMap id := by
        rw [filterMap_map]
        rfl
    _ = _ := by
        rw [hids, filterMap_map]
        exact congrFun filterMap_eq_map' _

end Aiwatcher.Store
