import Aiwatcher.Strings
import Aiwatcher.Store.Scope

/-!
# Aiwatcher.Events

The event taxonomy and a recorded event (`catalog.rs`, `envelope.rs`).

What a double is worth is a parameter (`Floats`); the fields nothing here reads are left out.
-/

namespace Aiwatcher

/-! ## The catalog -/

/-- What an event is about. -/
inductive Subject where
  | run | agent | llm | tool | step | eval | workflow | execution | client | unknown
  deriving DecidableEq, Repr

/-- Where in a span's life an event sits. -/
inductive Phase where
  | start
  | point
  | ended (ok : Bool)
  deriving DecidableEq, Repr

inductive EventType where
  | runStarted | runCompleted | runFailed
  | agentStarted | agentCompleted | agentFailed | agentMessage
  | llmStarted | llmFirstToken | llmChunk | llmCompleted | llmFailed
  | toolStarted | toolCompleted | toolFailed
  | stepStarted | stepCompleted | stepFailed
  | evalStarted | evalCase | evalCompleted | evalFailed
  | workflowDeclared | artifactProduced
  | executionRequested | executionStarted | executionPaused | executionAwaitingInput
  | executionResumed | executionCompleted | executionFailed | executionCancelled
  | clientCounted
  | other (raw : String)
  deriving DecidableEq, Repr

namespace EventType

def asStr : EventType → String
  | runStarted => "run.started"
  | runCompleted => "run.completed"
  | runFailed => "run.failed"
  | agentStarted => "agent.started"
  | agentCompleted => "agent.completed"
  | agentFailed => "agent.failed"
  | agentMessage => "agent.message"
  | llmStarted => "llm.started"
  | llmFirstToken => "llm.first_token"
  | llmChunk => "llm.chunk"
  | llmCompleted => "llm.completed"
  | llmFailed => "llm.failed"
  | toolStarted => "tool.started"
  | toolCompleted => "tool.completed"
  | toolFailed => "tool.failed"
  | stepStarted => "step.started"
  | stepCompleted => "step.completed"
  | stepFailed => "step.failed"
  | evalStarted => "eval.started"
  | evalCase => "eval.case"
  | evalCompleted => "eval.completed"
  | evalFailed => "eval.failed"
  | workflowDeclared => "workflow.declared"
  | artifactProduced => "artifact.produced"
  | executionRequested => "execution.requested"
  | executionStarted => "execution.started"
  | executionPaused => "execution.paused"
  | executionAwaitingInput => "execution.awaiting_input"
  | executionResumed => "execution.resumed"
  | executionCompleted => "execution.completed"
  | executionFailed => "execution.failed"
  | executionCancelled => "execution.cancelled"
  | clientCounted => "client.counted"
  | other raw => raw

def subject : EventType → Subject
  | runStarted | runCompleted | runFailed => .run
  | agentStarted | agentCompleted | agentFailed | agentMessage => .agent
  | llmStarted | llmFirstToken | llmChunk | llmCompleted | llmFailed => .llm
  | toolStarted | toolCompleted | toolFailed => .tool
  | stepStarted | stepCompleted | stepFailed => .step
  | evalStarted | evalCase | evalCompleted | evalFailed => .eval
  | workflowDeclared | artifactProduced => .workflow
  | executionRequested | executionStarted | executionPaused | executionAwaitingInput
  | executionResumed | executionCompleted | executionFailed | executionCancelled => .execution
  | clientCounted => .client
  | other _ => .unknown

/-- `none` for an unknown type: it takes part in no span. -/
def phase : EventType → Option Phase
  | runStarted | agentStarted | llmStarted | toolStarted | stepStarted | evalStarted
  | executionRequested => some .start
  | runCompleted | agentCompleted | llmCompleted | toolCompleted | stepCompleted | evalCompleted
  | executionCompleted => some (.ended true)
  | runFailed | agentFailed | llmFailed | toolFailed | stepFailed | evalFailed
  | executionFailed | executionCancelled => some (.ended false)
  | agentMessage | llmFirstToken | llmChunk | evalCase | workflowDeclared | artifactProduced
  | executionStarted | executionPaused | executionAwaitingInput | executionResumed
  | clientCounted => some .point
  | other _ => none

/-- Whether an event takes part in a span at all. -/
def formsSpan (eventType : EventType) : Bool :=
  match eventType.subject with
  | .eval | .workflow | .execution | .client => false
  | _ => true

/-- The name shown in the waterfall. -/
def spanName (eventType : EventType) (target : Option String) : String :=
  match eventType.subject, target with
  | .llm, some model => s!"chat {model}"
  | .llm, none => "chat"
  | .tool, some tool => s!"execute_tool {tool}"
  | .tool, none => "execute_tool"
  | .agent, some agent => s!"invoke_agent {agent}"
  | .agent, none => "invoke_agent"
  | .run, _ => "run"
  | .step, some target => target
  | .step, none => "step"
  | _, _ => eventType.asStr

end EventType

/-! ## Numbers of a payload -/

/-- What the bits of a double are worth. -/
structure Floats where
  /-- `u64 as f64` -/
  ofU64 : UInt64 → UInt64
  /-- `i64 as f64` -/
  ofI64 : Int64 → UInt64
  /-- `f64 as i64` of a double without a fraction -/
  whole : UInt64 → Option Int64
  /-- `NumericalDuration::milliseconds` -/
  milliseconds : UInt64 → Duration

/-- `f64::is_finite`. -/
def isFinite (bits : UInt64) : Bool := (bits >>> 52) &&& 0x7FF != 0x7FF

/-- `bits >= 0.0`, of what is a number. -/
def isNonNegative (bits : UInt64) : Bool := bits >>> 63 == 0 || bits == 0x8000000000000000

def Value.asBool : Value → Option Bool
  | .bool b => some b
  | _ => none

def Value.asArray : Value → Option (List Value)
  | .array items => some items
  | _ => none

def Value.asF64 (floats : Floats) : Value → Option UInt64
  | .number (.posInt n) => some (floats.ofU64 n)
  | .number (.negInt n) => some (floats.ofI64 n)
  | .number (.float bits) => some bits
  | _ => none

/-- `as_i64`, accepting a double that happens to be whole. -/
def Value.asI64 (floats : Floats) : Value → Option Int64
  | .number (.posInt n) =>
    if n ≤ 0x7FFFFFFFFFFFFFFF then some n.toInt64 else floats.whole (floats.ofU64 n)
  | .number (.negInt n) => some n
  | .number (.float bits) => floats.whole bits
  | _ => none

/-! ## Recorded events -/

abbrev TraceId := BitVec 128
abbrev SpanId := UInt64

/-- Who sent an event. -/
structure Source where
  service : String
  instanceId : Option String
  sdk : String
  client : Option String
  deriving DecidableEq, Repr

/-- What the store fills in. -/
structure RecordedMetadata where
  messageId : String
  streamName : String
  globalPosition : UInt64
  traceId : TraceId
  spanId : SpanId
  parentSpanId : Option SpanId
  correlationId : String
  causationId : String
  runId : String
  conversationId : Option String
  workflowId : Option String
  workflowRunId : Option String
  agentId : Option String
  variantId : Option String
  publishedBy : Option String
  project : Option Store.ProjectScope
  sequence : Option UInt64
  runSequence : Option UInt64
  runCountedFrom : Option OffsetDateTime
  spanKey : String
  schemaVersion : UInt16
  source : Source
  occurredAt : OffsetDateTime
  ingestedAt : OffsetDateTime
  deriving DecidableEq, Repr

structure RecordedEvent where
  eventType : EventType
  data : Value
  metadata : RecordedMetadata

namespace RecordedEvent

def dataStr (event : RecordedEvent) (key : String) : Option String :=
  (event.data.get key).bind Value.asStr

def dataBool (event : RecordedEvent) (key : String) : Option Bool :=
  (event.data.get key).bind Value.asBool

def dataF64 (floats : Floats) (event : RecordedEvent) (key : String) : Option UInt64 :=
  (event.data.get key).bind (Value.asF64 floats)

def dataI64 (floats : Floats) (event : RecordedEvent) (key : String) : Option Int64 :=
  (event.data.get key).bind (Value.asI64 floats)

/-- A step's kind, from its payload. -/
def stepType (event : RecordedEvent) : Option String :=
  if event.eventType.subject = .step then
    ((event.data.get "step_type").or (event.data.get "span_type")).bind Value.asStr
  else none

end RecordedEvent

end Aiwatcher
