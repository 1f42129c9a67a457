import Aiwatcher.Trace.Attributes

/-!
# Aiwatcher.Trace.Assembler

Folds events into spans (`assembler.rs`).  A span is opened by a start, closed by an end, and
written then only; what stays open too long is swept, and a shutdown drains the rest.

The order a hash map is walked in is an argument of `sweep` and `drain`.  Metrics are left out.
-/

namespace Aiwatcher.Trace

open Library

/-! ## Spans -/

/-- Which span, of which trace. -/
structure SpanKey where
  traceId : TraceId
  spanId : SpanId
  deriving DecidableEq, Repr

namespace SpanKey

instance : Ord SpanKey where
  compare := compareLex (compareOn traceId) (compareOn spanId)

instance : Std.TransOrd SpanKey :=
  inferInstanceAs (Std.TransCmp (compareLex (compareOn traceId) (compareOn spanId)))

instance : Std.LawfulEqOrd SpanKey :=
  Library.Table.lawfulEq_compareLex fun a b => by
    cases a
    cases b
    simp_all

end SpanKey

inductive SpanStatus where
  | unset
  | ok
  | error (message : String)
  deriving DecidableEq, Repr

/-- A point in time inside a span. -/
structure SpanEvent where
  name : String
  at' : OffsetDateTime
  deriving DecidableEq, Repr

/-- A span that is finished and ready to be written. -/
structure CompletedSpan where
  traceId : TraceId
  spanId : SpanId
  parentSpanId : Option SpanId
  name : String
  kind : SpanKind
  start : OffsetDateTime
  endAt : OffsetDateTime
  status : SpanStatus
  attributes : List Attr
  events : List SpanEvent
  deriving DecidableEq, Repr

def CompletedSpan.key (span : CompletedSpan) : SpanKey := ⟨span.traceId, span.spanId⟩

structure OpenSpan where
  traceId : TraceId
  spanId : SpanId
  parentSpanId : Option SpanId
  subject : Subject
  name : String
  kind : SpanKind
  start : OffsetDateTime
  lastSeen : OffsetDateTime
  attributes : List Attr
  events : List SpanEvent
  chunkCount : UInt64
  firstTokenAt : Option OffsetDateTime
  runId : String
  deriving DecidableEq, Repr

/-- How a span was closed. -/
def closedByEvent : String := "event"
def closedByTimeout : String := "timeout"
def closedBySynthesisedStart : String := "synthesised_start"

/-- Attributes a span has already are not written again. -/
def mergeAttributes (attributes extra : List Attr) : List Attr :=
  extra.foldl (fun known attr =>
    if known.any fun entry => entry.1 == attr.1 then known else known ++ [attr]) attributes

namespace OpenSpan

def key (span : OpenSpan) : SpanKey := ⟨span.traceId, span.spanId⟩

/-- Whether this span can hold children. -/
def isContainer (span : OpenSpan) : Bool :=
  match span.subject with
  | .run | .agent | .step => true
  | _ => false

/-- The attributes of a span that is closed in some way. -/
def closedAttributes (span : OpenSpan) (closedBy : String) (extra : List Attr) : List Attr :=
  mergeAttributes span.attributes extra ++ [(closedByKey, .str closedBy)] ++
    if 0 < span.chunkCount then [(chunkCountKey, ofCount span.chunkCount)] else []

def close (span : OpenSpan) (endAt : OffsetDateTime) (status : SpanStatus) (closedBy : String)
    (extra : List Attr) : CompletedSpan where
  traceId := span.traceId
  spanId := span.spanId
  parentSpanId := span.parentSpanId
  name := span.name
  kind := span.kind
  start := span.start
  endAt := max endAt span.start
  status := status
  attributes := span.closedAttributes closedBy extra
  events := span.events

end OpenSpan

/-! ## The assembler -/

structure AssemblerConfig where
  orphanTimeout : Duration
  maxOpenSpans : Nat
  recordFirstTokenEvent : Bool
  deriving DecidableEq, Repr

/-- The open spans, and for each run its open containers, the most recent one last. -/
structure SpanAssembler where
  openSpans : BTreeMap SpanKey OpenSpan
  runs : BTreeMap String (List SpanId)

namespace SpanAssembler

def new : SpanAssembler := ⟨∅, ∅⟩

/-- The most recently opened still open container of a run. -/
def inferParent (assembler : SpanAssembler) (runId : String) (selfSpan : SpanId) :
    Option SpanId :=
  (assembler.runs[runId]?).bind fun (containers : List SpanId) =>
    containers.reverse.find? fun candidate => candidate ≠ selfSpan

def pushContainer (assembler : SpanAssembler) (span : OpenSpan) : SpanAssembler :=
  if span.isContainer then
    { assembler with
      runs := assembler.runs.insert span.runId
        (((assembler.runs[span.runId]?).getD []) ++ [span.spanId]) }
  else assembler

def popContainer (assembler : SpanAssembler) (span : OpenSpan) : SpanAssembler :=
  if !span.isContainer then assembler
  else match assembler.runs[span.runId]? with
    | none => assembler
    | some containers =>
      let left := containers.filter fun container => container ≠ span.spanId
      if left.isEmpty then { assembler with runs := assembler.runs.erase span.runId }
      else { assembler with runs := assembler.runs.insert span.runId left }

/-- The span under a key leaves the map and its run's containers. -/
def remove (assembler : SpanAssembler) (key : SpanKey) (span : OpenSpan) : SpanAssembler :=
  { assembler with openSpans := assembler.openSpans.erase key }.popContainer span

/-- The open keys as a walk of the map meets them: in some order, the others behind. -/
def walk (assembler : SpanAssembler) (order : List SpanKey) : List SpanKey :=
  let met := order.dedup.filter assembler.openSpans.contains
  met ++ assembler.openSpans.keys.filter fun key => !met.contains key

end SpanAssembler

/-! ## Events -/

/-- The span an event is about. -/
def keyOf (event : RecordedEvent) : SpanKey := ⟨event.metadata.traceId, event.metadata.spanId⟩

namespace SpanAssembler

/-- An explicit parent, or the one that is inferred. -/
def parentFor (assembler : SpanAssembler) (event : RecordedEvent) : Option SpanId :=
  event.metadata.parentSpanId.or
    (assembler.inferParent event.metadata.runId event.metadata.spanId)

/-- A span as its first event describes it. -/
def describe (assembler : SpanAssembler) (event : RecordedEvent) (start : OffsetDateTime)
    (attributes : List Attr) : OpenSpan where
  traceId := event.metadata.traceId
  spanId := event.metadata.spanId
  parentSpanId := assembler.parentFor event
  subject := event.eventType.subject
  name := event.eventType.spanName (spanTarget event)
  kind := spanKind event
  start := start
  lastSeen := event.metadata.occurredAt
  attributes := attributes
  events := []
  chunkCount := 0
  firstTokenAt := none
  runId := event.metadata.runId

/-- The span a start opens. -/
def started (floats : Floats) (assembler : SpanAssembler) (event : RecordedEvent) : OpenSpan :=
  assembler.describe event event.metadata.occurredAt
    (baseAttributes event ++ requestAttributes floats event)

/-- How far an end is back-dated when its start was never seen. -/
def duration (floats : Floats) (event : RecordedEvent) : Duration :=
  ((event.dataF64 floats "duration_ms").filter fun ms =>
    isFinite ms && isNonNegative ms).elim 0 floats.milliseconds

/-- The span an end makes up when its start was never seen. -/
def synthesised (floats : Floats) (assembler : SpanAssembler) (event : RecordedEvent) :
    OpenSpan :=
  assembler.describe event (event.metadata.occurredAt - duration floats event)
    (baseAttributes event)

def openSpan (floats : Floats) (assembler : SpanAssembler) (event : RecordedEvent) :
    SpanAssembler :=
  match assembler.openSpans[keyOf event]? with
  | some existing =>
    { assembler with
      openSpans := assembler.openSpans.insert (keyOf event)
        { existing with lastSeen := event.metadata.occurredAt } }
  | none =>
    let span := assembler.started floats event
    let pushed := assembler.pushContainer span
    { pushed with openSpans := pushed.openSpans.insert (keyOf event) span }

/-- What a point leaves on its span. -/
def pointOn (config : AssemblerConfig) (event : RecordedEvent) (span : OpenSpan) : OpenSpan :=
  let seen := { span with lastSeen := event.metadata.occurredAt }
  match event.eventType with
  | .llmChunk => { seen with chunkCount := seen.chunkCount + 1 }
  | .llmFirstToken =>
    { seen with
      firstTokenAt := some event.metadata.occurredAt
      events := if config.recordFirstTokenEvent then
        seen.events ++ [⟨"gen_ai.first_token", event.metadata.occurredAt⟩] else seen.events }
  | _ => seen

def recordPoint (config : AssemblerConfig) (assembler : SpanAssembler) (event : RecordedEvent) :
    SpanAssembler :=
  match assembler.openSpans[keyOf event]? with
  | none => assembler
  | some span =>
    { assembler with
      openSpans := assembler.openSpans.insert (keyOf event) (pointOn config event span) }

/-- A publisher other than the end's is not named. -/
def retainPublisher (event : RecordedEvent) (attributes : List Attr) : List Attr :=
  attributes.filter fun attr => attr.1 ≠ publishedByKey ||
    event.metadata.publishedBy.any fun published => attr.2 == .str published

def statusOf (event : RecordedEvent) (ok : Bool) : SpanStatus :=
  if ok then .ok
  else .error (((event.dataStr "error").or (event.dataStr "message")).getD "failed")

/-- The record of a span that an end closes. -/
def finish (floats : Floats) (event : RecordedEvent) (ok : Bool) (span : OpenSpan)
    (closedBy : String) : CompletedSpan :=
  { span with attributes := retainPublisher event span.attributes }.close
    event.metadata.occurredAt (statusOf event ok) closedBy (payloadAttributes floats event)

def closeSpan (floats : Floats) (assembler : SpanAssembler) (event : RecordedEvent) (ok : Bool) :
    CompletedSpan × SpanAssembler :=
  match assembler.openSpans[keyOf event]? with
  | some span => (finish floats event ok span closedByEvent, assembler.remove (keyOf event) span)
  | none =>
    let span := assembler.synthesised floats event
    (finish floats event ok span closedBySynthesisedStart, assembler.popContainer span)

/-- Fold one event in. -/
def ingest (config : AssemblerConfig) (floats : Floats) (assembler : SpanAssembler)
    (event : RecordedEvent) : List CompletedSpan × SpanAssembler :=
  if !event.eventType.formsSpan then ([], assembler)
  else match event.eventType.phase with
    | none => ([], assembler)
    | some .start => ([], assembler.openSpan floats event)
    | some .point => ([], assembler.recordPoint config event)
    | some (.ended ok) =>
      let (span, after) := assembler.closeSpan floats event ok
      ([span], after)

/-! ## Sweeping and draining -/

/-- Close the spans under some keys where they stand, as errors. -/
def abandon (message : String) : SpanAssembler → List SpanKey → List CompletedSpan × SpanAssembler
  | assembler, [] => ([], assembler)
  | assembler, key :: keys =>
    match assembler.openSpans[key]? with
    | none => abandon message assembler keys
    | some span =>
      let (spans, after) := abandon message (assembler.remove key span) keys
      (span.close span.lastSeen (.error message) closedByTimeout [] :: spans, after)

/-- When the span under a key was last heard from. -/
def lastSeenAt (assembler : SpanAssembler) (key : SpanKey) : OffsetDateTime :=
  (assembler.openSpans[key]?).elim 0 OpenSpan.lastSeen

/-- The keys a sweep takes: the quiet spans, and over the cap the oldest of the others. -/
def stale (config : AssemblerConfig) (assembler : SpanAssembler) (now : OffsetDateTime)
    (order : List SpanKey) : List SpanKey :=
  let known := assembler.walk order
  let deadline := now - config.orphanTimeout
  let quiet := known.filter fun key => assembler.lastSeenAt key ≤ deadline
  if config.maxOpenSpans < assembler.openSpans.size - quiet.length then
    let byAge := (known.filter fun key => !quiet.contains key).insertionSort
      fun a b => assembler.lastSeenAt a ≤ assembler.lastSeenAt b
    quiet ++ byAge.take (assembler.openSpans.size - quiet.length - config.maxOpenSpans)
  else quiet

/-- Close spans that have gone quiet, and report them. -/
def sweep (config : AssemblerConfig) (assembler : SpanAssembler) (now : OffsetDateTime)
    (order : List SpanKey) : List CompletedSpan × SpanAssembler :=
  assembler.abandon "no end event arrived before the orphan timeout"
    (assembler.stale config now order)

/-- Close everything still open. -/
def drain (assembler : SpanAssembler) (order : List SpanKey) :
    List CompletedSpan × SpanAssembler :=
  assembler.abandon "projector shut down while the span was open" (assembler.walk order)

end SpanAssembler

/-! ## Calls -/

/-- What a consumer asks of the assembler. -/
inductive Call where
  | ingest (event : RecordedEvent)
  | sweep (now : OffsetDateTime) (order : List SpanKey)
  | drain (order : List SpanKey)

/-- The assembler as a machine that emits completed spans. -/
def assembling (config : AssemblerConfig) (floats : Floats) :
    Machine SpanAssembler Call CompletedSpan where
  step assembler
    | .ingest event => some (assembler.ingest config floats event)
    | .sweep now order => some (assembler.sweep config now order)
    | .drain order => some (assembler.drain order)

end Aiwatcher.Trace
