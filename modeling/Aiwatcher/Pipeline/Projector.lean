import Aiwatcher.Trace.Assembler

/-!
# Aiwatcher.Pipeline.Projector

The consumer loop (`pipeline.rs`): events are folded into spans, spans wait for a flush, and a
flush writes them before it commits the checkpoint.

A checkpoint is the position it stands for.  What the trace store, the dead letters, the other
outputs and the checkpointer answer is an argument of the flush that asks them.  Of the metric
samples only whether any wait is kept; the read model and live subscribers are left out.
-/

namespace Aiwatcher.Pipeline

open Library Trace

/-! ## Redeliveries -/

/-- The message ids remembered, the oldest first (`dedup.rs`). -/
structure Deduplicator where
  order : List String
  capacity : Nat
  deriving DecidableEq, Repr

namespace Deduplicator

def new (capacity : Nat) : Deduplicator := ⟨[], max capacity 1⟩

/-- Record an id, and say whether it is new: `admit` in the source. -/
def admitId (dedup : Deduplicator) (id : String) : Bool × Deduplicator :=
  if dedup.order.contains id then (false, dedup)
  else
    let kept := if dedup.capacity ≤ dedup.order.length then dedup.order.tail else dedup.order
    (true, { dedup with order := kept ++ [id] })

end Deduplicator

/-! ## Retries -/

/-- What a store answers to a write: `unavailable` is every failure worth a retry. -/
inductive WriteAnswer where
  | accepted
  | rejected
  | unavailable
  deriving DecidableEq, Repr

/-- The answers to the attempts of one write, from the `attempt`th on; `left` more may follow. -/
def withBackoff (answer : Nat → WriteAnswer) : Nat → Nat → List WriteAnswer
  | 0, attempt => [answer attempt]
  | left + 1, attempt =>
    if answer attempt = .unavailable then answer attempt :: withBackoff answer left (attempt + 1)
    else [answer attempt]

/-! ## State -/

abbrev Checkpoint := Nat

/-- The checkpoint of an event. -/
def checkpointOf (event : RecordedEvent) : Checkpoint := event.metadata.globalPosition.toNat

structure ProjectorConfig where
  /-- Spans buffered before a flush. -/
  flushBatchSize : Nat
  dedupCapacity : Nat
  maxAttempts : Nat
  assembler : AssemblerConfig
  deriving DecidableEq, Repr

/-- Buffered output waiting for a flush. -/
structure Pending where
  spans : List CompletedSpan := []
  /-- Whether any metric samples wait. -/
  metrics : Bool := false
  checkpoint : Option Checkpoint := none
  deriving DecidableEq, Repr

def Pending.isEmpty (pending : Pending) : Bool :=
  pending.spans.isEmpty && !pending.metrics && pending.checkpoint.isNone

structure Projector where
  assembler : SpanAssembler
  dedup : Deduplicator
  pending : Pending
  /-- Whether the loop has not returned. -/
  running : Bool

/-- What the projector does that can be seen from outside. -/
inductive Output where
  /-- the event at a position finished some spans -/
  | finished (at' : Checkpoint) (spans : List CompletedSpan)
  /-- the trace store was asked to write some spans -/
  | attempted (spans : List CompletedSpan) (answer : WriteAnswer)
  /-- some spans were parked as a dead letter -/
  | parked (spans : List CompletedSpan)
  | committed (checkpoint : Checkpoint)
  deriving DecidableEq

/-- What a flush is answered. -/
structure Answers where
  /-- the trace store, attempt by attempt -/
  traces : Nat → WriteAnswer
  /-- whether the dead letters take a batch -/
  parks : Bool
  /-- whether the period fold and the index of asked models could write theirs -/
  periodsWritten : Bool
  /-- whether the checkpointer saves -/
  saves : Bool

/-- What the loop is woken by. -/
inductive Wake where
  | event (event : RecordedEvent) (answers : Answers)
  | caughtUp (checkpoint : Checkpoint) (answers : Answers)
  | ended (answers : Answers)
  | flushTimer (answers : Answers)
  | sweepTimer (now : OffsetDateTime) (order : List SpanKey)
  | shutdown (order : List SpanKey) (answers : Answers)

/-! ## Events -/

namespace Projector

def new (config : ProjectorConfig) : Projector :=
  ⟨.new, .new config.dedupCapacity, {}, true⟩

/-- Finished spans wait for the next flush. -/
def buffer (projector : Projector) (spans : List CompletedSpan) : Projector :=
  { projector with pending := { projector.pending with spans := projector.pending.spans ++ spans } }

/-- Fold one event in.  A redelivery still advances the checkpoint. -/
def handle (config : ProjectorConfig) (floats : Floats) (projector : Projector)
    (event : RecordedEvent) : List Output × Projector :=
  let noted := { projector.pending with checkpoint := some (checkpointOf event), metrics := true }
  let (fresh, dedup) := projector.dedup.admitId event.metadata.messageId
  if fresh then
    let (spans, assembler) := projector.assembler.ingest config.assembler floats event
    ([.finished (checkpointOf event) spans],
      { projector with assembler, dedup, pending := noted }.buffer spans)
  else ([], { projector with pending := noted })

/-! ## Flushing -/

/-- The answers to a batch of spans, the last of which the write comes to. -/
def writeSpans (config : ProjectorConfig) (answers : Answers) : List WriteAnswer :=
  withBackoff answers.traces (config.maxAttempts - 1) 1

/-- Only a batch that was refused for good is parked. -/
def parkSpans (spans : List CompletedSpan) (answers : Answers) (result : WriteAnswer) :
    List Output :=
  if result = .rejected && answers.parks then [.parked spans] else []

/-- Write what is buffered, then commit. -/
def flush (config : ProjectorConfig) (answers : Answers) (projector : Projector) :
    List Output × Projector :=
  let pending := projector.pending
  let attempts := if pending.spans.isEmpty then [] else writeSpans config answers
  let result := attempts.getLastD .accepted
  let spanWriteFailed := decide (result ≠ .accepted)
  let committed := pending.checkpoint.filter fun _ =>
    !spanWriteFailed && answers.periodsWritten && answers.saves
  (attempts.map (.attempted pending.spans) ++ parkSpans pending.spans answers result ++
      committed.toList.map .committed,
    { projector with pending := {} })

/-! ## The loop -/

/-- What the loop does before it flushes, if it does. -/
def takeIn (config : ProjectorConfig) (floats : Floats) (projector : Projector) :
    Wake → List Output × Projector
  | .event event _ => projector.handle config floats event
  | .caughtUp checkpoint _ =>
    if projector.pending.checkpoint.isNone && checkpoint != 0 then
      ([], { projector with pending := { projector.pending with checkpoint := some checkpoint } })
    else ([], projector)
  | .ended _ => ([], { projector with running := false })
  | .flushTimer _ => ([], projector)
  | .sweepTimer now order =>
    let (spans, assembler) := projector.assembler.sweep config.assembler now order
    let noted := { projector.pending with metrics := true }
    ([], { projector with assembler, pending := noted }.buffer spans)
  | .shutdown order _ =>
    let (spans, assembler) := projector.assembler.drain order
    ([], { projector with assembler, running := false }.buffer spans)

/-- Whether the loop flushes now, and what it is answered. -/
def flushes (config : ProjectorConfig) (projector : Projector) : Wake → Option Answers
  | .event _ answers =>
    if config.flushBatchSize ≤ projector.pending.spans.length then some answers else none
  | .flushTimer answers => if projector.pending.isEmpty then none else some answers
  | .caughtUp _ answers | .ended answers | .shutdown _ answers => some answers
  | .sweepTimer _ _ => none

/-- One turn of the loop. -/
def wake (config : ProjectorConfig) (floats : Floats) (projector : Projector) (reason : Wake) :
    List Output × Projector :=
  let (out, taken) := projector.takeIn config floats reason
  match taken.flushes config reason with
  | none => (out, taken)
  | some answers =>
    let (written, flushed) := taken.flush config answers
    (out ++ written, flushed)

end Projector

/-- The projector as a machine that emits what it does. -/
def projecting (config : ProjectorConfig) (floats : Floats) : Machine Projector Wake Output where
  step projector reason :=
    if projector.running then some (projector.wake config floats reason) else none

end Aiwatcher.Pipeline
