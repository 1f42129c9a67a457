import Aiwatcher.Datasets.Pipeline
import Aiwatcher.Events

/-!
# Aiwatcher.Trace.Attributes

What a span says of the events it was folded from: its name, its kind and its attributes
(`assembler.rs`).
-/

namespace Aiwatcher.Trace

/-! ## Attributes -/

inductive AttrValue where
  | bool (b : Bool)
  | int (n : Int64)
  | double (bits : UInt64)
  | str (s : String)
  | strList (texts : List String)
  deriving DecidableEq, Repr

abbrev Attr := String × AttrValue

/-- OTLP has no unsigned integer; a count saturates. -/
def ofCount (n : UInt64) : AttrValue :=
  .int (if n ≤ 0x7FFFFFFFFFFFFFFF then n.toInt64 else Int64.maxValue)

def textAttr (key : String) (value : Option String) : List Attr :=
  value.toList.map fun text => (key, .str text)

def countAttr (key : String) (value : Option Int64) : List Attr :=
  value.toList.map fun n => (key, .int n)

def doubleAttr (key : String) (value : Option UInt64) : List Attr :=
  value.toList.map fun bits => (key, .double bits)

def flagAttr (key : String) (value : Option Bool) : List Attr :=
  value.toList.map fun b => (key, .bool b)

def listAttr (key : String) (texts : List String) : List Attr :=
  if texts.isEmpty then [] else [(key, .strList texts)]

/-! ## Kinds and names -/

inductive SpanKind where
  | internal | server | client | producer | consumer
  deriving DecidableEq, Repr

/-- Whether a step of this kind makes a call out of the process. -/
def isRemote (stepType : String) : Bool :=
  ["retriever", "embedding", "reranker"].contains
    (String.ofList (stepType.toList.map Char.toLower))

def spanKind (event : RecordedEvent) : SpanKind :=
  match event.eventType.subject with
  | .llm | .tool => .client
  | .step => if event.stepType.any isRemote then .client else .internal
  | _ => .internal

/-- What goes after the operation name in the span title. -/
def spanTarget (event : RecordedEvent) : Option String :=
  match event.eventType.subject with
  | .llm => (event.dataStr "model").or (event.dataStr "request_model")
  | .tool => (event.dataStr "tool_name").or (event.dataStr "name")
  | .agent => event.metadata.agentId
  | .step => (event.dataStr "name").or event.stepType
  | _ => none

/-! ## What every span carries -/

def operationName (subject : Subject) : Option String :=
  match subject with
  | .llm => some "chat"
  | .tool => some "execute_tool"
  | .agent => some "invoke_agent"
  | .step => some "step"
  | _ => none

def publishedByKey : String := "aiwatcher.source.published_by"
def closedByKey : String := "aiwatcher.span.closed_by"
def chunkCountKey : String := "aiwatcher.span.chunk_count"

def projectAttributes (project : Option Store.ProjectScope) : List Attr :=
  match project with
  | none => []
  | some scope => [("aiwatcher.project.organization", .str scope.organization),
      ("aiwatcher.project.id", .str scope.project)]

/-- Attributes every span carries, regardless of what it is. -/
def baseAttributes (event : RecordedEvent) : List Attr :=
  let metadata := event.metadata
  [("messaging.system", .str "aiwatcher"),
    ("messaging.message.id", .str metadata.messageId),
    ("messaging.message.correlation_id", .str metadata.correlationId),
    ("messaging.message.causation_id", .str metadata.causationId),
    ("aiwatcher.run.id", .str metadata.runId),
    ("aiwatcher.stream.name", .str metadata.streamName),
    ("aiwatcher.stream.global_position", ofCount metadata.globalPosition),
    ("aiwatcher.event.schema_version", .int metadata.schemaVersion.toUInt64.toInt64),
    ("aiwatcher.source.service", .str metadata.source.service),
    ("aiwatcher.source.sdk", .str metadata.source.sdk)] ++
  textAttr "aiwatcher.source.instance" metadata.source.instanceId ++
  textAttr "messaging.message.conversation_id" metadata.conversationId ++
  textAttr "gen_ai.conversation.id" metadata.conversationId ++
  textAttr "gen_ai.agent.id" metadata.agentId ++
  textAttr "aiwatcher.variant.id" metadata.variantId ++
  textAttr publishedByKey metadata.publishedBy ++
  projectAttributes metadata.project ++
  textAttr "gen_ai.operation.name" (operationName event.eventType.subject)

/-! ## What a call was asked -/

/-- `PromptVersionId::parse`. -/
def isPromptVersion (text : String) : Bool :=
  byteLength text == 64 && text.toList.all fun c => c.isDigit || ('a' ≤ c && c ≤ 'f')

/-- `PromptName::parse`. -/
def isPromptName (text : String) : Bool :=
  byteLength text ≤ 128 &&
    text.toList.head?.any (fun c => c.isLower || c.isDigit) &&
    text.toList.tail.all fun c => c.isLower || c.isDigit || c == '.' || c == '_' || c == '-'

/-- The prompt version a call says it ran on, and what a host found of it. -/
def promptAttributes (event : RecordedEvent) : List Attr :=
  match (event.dataStr "prompt_version").filter isPromptVersion with
  | none => []
  | some version =>
    [("aiwatcher.prompt.version_id", .str version)] ++
    textAttr "aiwatcher.prompt.name" ((event.dataStr "prompt_name").filter isPromptName) ++
    flagAttr "aiwatcher.prompt.verified" (event.dataBool "prompt_verified") ++
    flagAttr "aiwatcher.prompt.exact" (event.dataBool "prompt_exact")

def stopSequences (event : RecordedEvent) : List String :=
  match event.data.get "stop" with
  | some (.string one) => [one]
  | some (.array many) => many.filterMap Value.asStr
  | _ => []

/-- What the model was asked, and on which registered prompt. -/
def requestAttributes (floats : Floats) (event : RecordedEvent) : List Attr :=
  if event.eventType.subject ≠ .llm then []
  else
    doubleAttr "gen_ai.request.temperature" (event.dataF64 floats "temperature") ++
    doubleAttr "gen_ai.request.top_p" (event.dataF64 floats "top_p") ++
    doubleAttr "gen_ai.request.frequency_penalty" (event.dataF64 floats "frequency_penalty") ++
    doubleAttr "gen_ai.request.presence_penalty" (event.dataF64 floats "presence_penalty") ++
    countAttr "gen_ai.request.max_tokens" (event.dataI64 floats "max_tokens") ++
    countAttr "gen_ai.request.top_k" (event.dataI64 floats "top_k") ++
    countAttr "gen_ai.request.seed" (event.dataI64 floats "seed") ++
    listAttr "gen_ai.request.stop_sequences" (stopSequences event) ++
    textAttr "aiwatcher.model.version" (event.dataStr "model_version") ++
    promptAttributes event

/-! ## What an end says -/

def mostDigests : Nat := 64

/-- A digest of so many hex characters. -/
def isHexOf (length : Nat) (text : String) : Bool :=
  byteLength text == length && text.toList.all Datasets.isHexDigit

def isDigest (text : String) : Bool := isHexOf 32 text

/-- `split_once(':')` into two digests. -/
def isDigestPair (text : String) : Bool :=
  let (value, rest) := text.toList.span (· ≠ ':')
  !rest.isEmpty && isDigest (String.ofList value) && isDigest (String.ofList rest.tail)

/-- A payload's list of digests, each as `keep` says one is spelled. -/
def digestsOf (event : RecordedEvent) (key : String) (keep : String → Bool) : List String :=
  ((((event.data.get key).bind Value.asArray).getD []).filterMap Value.asStr |>.filter keep).take
    mostDigests

def digestsAttr (event : RecordedEvent) (key name : String) (keep : String → Bool) :
    List Attr :=
  listAttr name (digestsOf event key keep)

def llmAttributes (floats : Floats) (event : RecordedEvent) : List Attr :=
  textAttr "gen_ai.provider.name" (event.dataStr "provider") ++
  textAttr "gen_ai.system" (event.dataStr "provider") ++
  textAttr "gen_ai.request.model" (event.dataStr "model") ++
  textAttr "gen_ai.response.model" (event.dataStr "response_model") ++
  textAttr "gen_ai.response.id" (event.dataStr "response_id") ++
  listAttr "gen_ai.response.finish_reasons" (event.dataStr "finish_reason").toList ++
  countAttr "gen_ai.usage.input_tokens" (event.dataI64 floats "prompt_tokens") ++
  countAttr "gen_ai.usage.input_tokens" (event.dataI64 floats "input_tokens") ++
  countAttr "gen_ai.usage.output_tokens" (event.dataI64 floats "completion_tokens") ++
  countAttr "gen_ai.usage.output_tokens" (event.dataI64 floats "output_tokens") ++
  countAttr "gen_ai.usage.cached_tokens" (event.dataI64 floats "cached_tokens") ++
  doubleAttr "aiwatcher.usage.cost_usd"
    ((event.dataF64 floats "cost_usd").filter fun cost => isFinite cost && isNonNegative cost) ++
  digestsAttr event "asked_digests" "aiwatcher.witness.asked" isDigest ++
  digestsAttr event "asked_normalized_digests" "aiwatcher.witness.asked_normalized" isDigest ++
  digestsAttr event "replied_digests" "aiwatcher.witness.replied" isDigest ++
  digestsAttr event "rendered_digests" "aiwatcher.witness.rendered" isDigest ++
  digestsAttr event "derived_digests" "aiwatcher.witness.derived" isDigestPair ++
  digestsAttr event "placed_digests" "aiwatcher.witness.placed" isDigestPair ++
  digestsAttr event "taken_digests" "aiwatcher.witness.taken" isDigest ++
  textAttr "aiwatcher.witness.taking" ((event.dataStr "taking_digest").filter isDigest) ++
  flagAttr "aiwatcher.witness.took_nothing" ((event.dataBool "took_nothing").filter (· = true)) ++
  requestAttributes floats event

def toolAttributes (event : RecordedEvent) : List Attr :=
  textAttr "gen_ai.tool.name" (event.dataStr "tool_name") ++
  textAttr "gen_ai.tool.call.id" (event.dataStr "call_id") ++
  digestsAttr event "arguments_digests" "aiwatcher.witness.arguments" isDigest ++
  digestsAttr event "returned_digests" "aiwatcher.witness.returned" isDigest ++
  textAttr "aiwatcher.witness.tool_code" ((event.dataStr "code_sha256").filter (isHexOf 64))

def stepAttributes (floats : Floats) (event : RecordedEvent) : List Attr :=
  textAttr "aiwatcher.span.step_type" event.stepType ++
  textAttr "aiwatcher.span.step_name" (event.dataStr "name") ++
  countAttr "aiwatcher.step.document_count" (event.dataI64 floats "document_count") ++
  countAttr "aiwatcher.step.top_k" (event.dataI64 floats "top_k") ++
  countAttr "aiwatcher.step.candidate_count" (event.dataI64 floats "candidate_count") ++
  doubleAttr "aiwatcher.step.score" (event.dataF64 floats "score")

/-- Attributes read off the end event's payload. -/
def payloadAttributes (floats : Floats) (event : RecordedEvent) : List Attr :=
  match event.eventType.subject with
  | .llm => llmAttributes floats event
  | .tool => toolAttributes event
  | .agent => textAttr "gen_ai.agent.name" (event.dataStr "agent_name")
  | .run => textAttr "aiwatcher.run.status" (event.dataStr "status")
  | .step => stepAttributes floats event
  | _ => []

end Aiwatcher.Trace
