import Aiwatcher.Events
import Aiwatcher.Library.Refusal
import Aiwatcher.Library.Records

/-!
# Aiwatcher.Bus.Wal

What goes into the log and what it hands out (`envelope.rs`, `ports.rs`).

A record is its envelope and what the log itself fills in; the ids and names that `record` resolves
from the envelope are left out, as is what of an envelope nothing here reads.  A checkpoint is the
position it is the padded decimal of.

The append-only file (`adapters/wal.rs`): one record per line, with an index of where each starts
that is built at open and appended to on every write.

How a record is written on a line and read from one (`serde_json`) is a parameter.
-/

namespace Aiwatcher.Bus

open Library List

/-! ## Envelopes -/

/-- The envelope version this build writes and the highest it can read. -/
def SCHEMA_VERSION : Nat := 1

inductive CoreError where
  | unsupportedSchemaVersion (found supported : Nat)
  | missingField (eventId eventType field : String)
  | invalidCheckpoint (value reason : String)
  deriving DecidableEq, Repr

structure EventEnvelope where
  schemaVersion : Nat := SCHEMA_VERSION
  eventId : Option String := none
  eventType : EventType
  occurredAt : OffsetDateTime
  runId : String
  source : Source
  deriving DecidableEq, Repr

namespace EventEnvelope

/-- Reject what cannot be recorded. -/
def validate (envelope : EventEnvelope) : Except CoreError Unit := do
  refuseIf (SCHEMA_VERSION < envelope.schemaVersion)
    (.unsupportedSchemaVersion envelope.schemaVersion SCHEMA_VERSION)
  refuseIf (envelope.runId = "")
    (.missingField (envelope.eventId.getD "<unset>") envelope.eventType.asStr "run_id")
  refuseIf (envelope.source.service = "")
    (.missingField (envelope.eventId.getD "<unset>") envelope.eventType.asStr "source.service")

/-- The stream this event belongs on: one per run. -/
def streamName (envelope : EventEnvelope) : String := "run:" ++ envelope.runId

end EventEnvelope

/-! ## Records -/

abbrev Checkpoint := Nat

def Checkpoint.beginning : Checkpoint := 0

/-- A position as a checkpoint writes it. -/
def padded (position : Nat) : String :=
  "".pushn '0' (20 - position.repr.length) ++ position.repr

/-- What the log hands to a consumer. -/
structure LogRecord where
  envelope : EventEnvelope
  streamName : String
  streamPosition : Nat
  globalPosition : Nat
  checkpoint : Checkpoint
  ingestedAt : OffsetDateTime
  deriving DecidableEq, Repr

/-- Promote a producer envelope into a log record. -/
def EventEnvelope.record (envelope : EventEnvelope) (streamPosition globalPosition : Nat)
    (ingestedAt : OffsetDateTime) : LogRecord where
  envelope
  streamName := envelope.streamName
  streamPosition
  globalPosition
  checkpoint := globalPosition
  ingestedAt

/-! ## Answers -/

/-- Where a record could not be decoded. -/
inductive Place where
  | checkpoint (checkpoint : Checkpoint)
  | offset (offset : Nat)
  deriving DecidableEq, Repr

inductive BusError where
  | decode (place : Place)
  | invalid (error : CoreError)
  | io
  deriving DecidableEq, Repr

/-- What an append produced. -/
structure AppendResult where
  /-- The envelopes as recorded, with positions filled in. -/
  recorded : List LogRecord
  /-- The checkpoint of the last event written. -/
  lastCheckpoint : Checkpoint
  deriving DecidableEq, Repr

def AppendResult.of (recorded : List LogRecord) : AppendResult where
  recorded
  lastCheckpoint := recorded.getLast?.elim Checkpoint.beginning (·.checkpoint)

/-- One page of a stream. -/
structure StreamPage where
  events : List LogRecord
  nextCursor : Option Nat
  hasMore : Bool
  deriving DecidableEq, Repr

namespace StreamPage

/-- Build a page an adapter read directly. -/
def new (events : List LogRecord) (hasMore : Bool) : StreamPage where
  events
  nextCursor := if hasMore then events.getLast?.map (·.streamPosition) else none
  hasMore

/-- Take a page out of an already-read stream. -/
def slice (events : List LogRecord) (after : Option Nat) (limit : Nat) : StreamPage :=
  let remaining := events.filter fun event => after.all fun cursor => cursor < event.streamPosition
  .new (remaining.take limit) (limit < remaining.length)

end StreamPage

/-! ## Numbered records -/

/-- The records of one stream. -/
def ofStream (stream : String) (log : List LogRecord) : List LogRecord :=
  log.filter (·.streamName = stream)

/-- Positions have no holes, in the log and in each of its streams. -/
structure Numbered (log : List LogRecord) : Prop where
  global : log.map (·.globalPosition) = List.range' 1 log.length
  stream : ∀ stream, (ofStream stream log).map (·.streamPosition) =
    List.range' 1 (ofStream stream log).length

theorem range'_of_prefix {front : List Nat} {start n : Nat} (h : front <+: List.range' start n) :
    front = List.range' start front.length := by
  have hlength := h.length_le
  rw [length_range'] at hlength
  apply ext_getElem
  · simp
  · intro i hi hi'
    rw [h.getElem hi]
    simp

theorem ofStream_append (stream : String) (log more : List LogRecord) :
    ofStream stream (log ++ more) = ofStream stream log ++ ofStream stream more := by
  simp [ofStream]

namespace Numbered

variable {log : List LogRecord}

theorem nil : Numbered [] := ⟨rfl, fun _ => rfl⟩

section

variable (h : Numbered log)

include h

theorem front {front : List LogRecord} (hfront : front <+: log) :
    Numbered front where
  global := by
    have hmap := hfront.map (·.globalPosition)
    rw [h.global] at hmap
    simpa using range'_of_prefix hmap
  stream stream := by
    have hmap := (hfront.filter (·.streamName = stream)).map (·.streamPosition)
    rw [← ofStream, ← ofStream, h.stream] at hmap
    simpa using range'_of_prefix hmap

theorem concat {record : LogRecord} (hglobal : record.globalPosition = log.length + 1)
    (hstream : record.streamPosition = (ofStream record.streamName log).length + 1) :
    Numbered (log ++ [record]) where
  global := by
    rw [map_append, h.global, length_append, length_singleton, range'_concat]
    simp [hglobal, Nat.add_comm]
  stream stream := by
    rw [ofStream_append, map_append, h.stream, length_append]
    by_cases heq : record.streamName = stream
    · subst heq
      have hone : ofStream record.streamName [record] = [record] := by simp [ofStream]
      rw [hone, length_singleton, range'_concat]
      simp [hstream, Nat.add_comm]
    · have hnone : ofStream stream [record] = [] := by simp [ofStream, heq]
      simp [hnone]

/-- What lies after a position of a stream is what stands after that many of its records. -/
theorem filter_after (stream : String) (cursor : Nat) :
    (ofStream stream log).filter (fun event => cursor < event.streamPosition) =
      (ofStream stream log).drop cursor := by
  have hrange : ∀ (records : List LogRecord) (start : Nat),
      records.map (·.streamPosition) = List.range' start records.length →
        records.filter (fun event => cursor < event.streamPosition) =
          records.drop (cursor + 1 - start) := by
    intro records
    induction records with
    | nil => simp
    | cons record records ih =>
      intro start hmap
      rw [map_cons, length_cons, range'_succ, List.cons.injEq] at hmap
      rw [filter_cons, ih (start + 1) hmap.2, hmap.1]
      by_cases hlt : cursor < start
      · have hzero : cursor + 1 - start = 0 := by omega
        have hzero' : cursor + 1 - (start + 1) = 0 := by omega
        simp [hlt, hzero, hzero']
      · have hsucc : cursor + 1 - start = (cursor + 1 - (start + 1)) + 1 := by omega
        simp [hlt, hsucc]
  simpa using hrange _ 1 (h.stream stream)

theorem slice_eq (stream : String) (after : Option Nat) (limit : Nat) :
    StreamPage.slice (ofStream stream log) after limit =
      .new (((ofStream stream log).drop (after.getD 0)).take limit)
        (limit < ((ofStream stream log).drop (after.getD 0)).length) := by
  unfold StreamPage.slice
  cases after with
  | none => simp
  | some cursor => simp [h.filter_after]

end

end Numbered

structure Writer where
  /-- Byte offset of the start of each record, indexed by global position - 1. -/
  offsets : List Nat := []
  /-- The same offsets, grouped by stream and indexed by stream position - 1. -/
  streamOffsets : BTreeMap String (List Nat) := ∅
  streamPositions : BTreeMap String Nat := ∅

namespace Writer

/-- One record more in the index. -/
def place (writer : Writer) (stream : String) (offset : Nat) : Writer :=
  { writer with
    offsets := writer.offsets ++ [offset]
    streamOffsets := writer.streamOffsets.insert stream
      (writer.streamOffsets[stream]?.getD [] ++ [offset]) }

end Writer

/-- The file, and what an open log holds of it. -/
structure FileWal where
  file : LineBytes := []
  writer : Option Writer := some {}

/-! ## Opening -/

/-- One complete line goes into the index, with the offset behind it. -/
def scanLine (codec : RecordCodec LogRecord) (scanned : Writer × Nat) (line : LineBytes) :
    Except BusError (Writer × Nat) :=
  if isText line then
    match codec.decode line with
    | none => .error (.decode (.checkpoint (scanned.1.offsets.length + 1)))
    | some event =>
      let placed := scanned.1.place event.streamName scanned.2
      .ok ({ placed with
        streamPositions := placed.streamPositions.insert event.streamName event.streamPosition },
        scanned.2 + line.length + 1)
  else .error .io

/-- Rebuild the index from what is already there; with it, how many bytes parse cleanly. -/
def scan (codec : RecordCodec LogRecord) (file : LineBytes) : Except BusError (Writer × Nat) := do
  let (lines, tail) := splitLines file
  let scanned ← lines.foldlM (scanLine codec) ({}, 0)
  -- a final line with no newline is a crash artefact, not a record
  if isText tail then .ok scanned else .error .io

namespace FileWal

variable (codec : RecordCodec LogRecord)

/-- Open a log, replaying what is already there; an incomplete trailing record is dropped. -/
def «open» (file : LineBytes) : Except BusError FileWal := do
  let (writer, validLen) ← scan codec file
  .ok { file := file.take validLen, writer }

end FileWal

/-! ## Appending -/

/-- What a batch is while it is being built. -/
structure Batch where
  streamPositions : BTreeMap String Nat
  recorded : List LogRecord := []
  buffer : LineBytes := []
  relativeOffsets : List (String × Nat) := []

/-- One envelope becomes a record, and a line of the buffer. -/
def promote (codec : RecordCodec LogRecord) (basePosition : Nat) (ingestedAt : OffsetDateTime)
    (envelope : EventEnvelope) : EStateM BusError Batch Unit := do
  MonadExcept.ofExcept (envelope.validate.mapError .invalid)
  let stream := envelope.streamName
  modify fun batch => { batch with
    streamPositions := batch.streamPositions.insert stream
      (batch.streamPositions[stream]?.getD 0 + 1) }
  let batch ← get
  let globalPosition := basePosition + batch.recorded.length + 1
  let event := envelope.record (batch.streamPositions[stream]?.getD 0) globalPosition ingestedAt
  let line ← MonadExcept.ofExcept
    (okOr (.decode (.checkpoint event.checkpoint)) (codec.encode event))
  set { batch with
    relativeOffsets := batch.relativeOffsets ++ [(stream, batch.buffer.length)]
    buffer := batch.buffer ++ line ++ [lineBreak]
    recorded := batch.recorded ++ [event] }

/-- What becomes of a write: all of it is on the disk, or it fails and some of it may be. -/
inductive Write where
  | whole
  | failed (landed : Nat)
  deriving DecidableEq, Repr

namespace FileWal

variable (codec : RecordCodec LogRecord)

/-- One write and one fsync for the whole batch; the index grows behind them.  A log that did not
open takes nothing. -/
def append (wal : FileWal) (events : List EventEnvelope) (ingestedAt : OffsetDateTime)
    (write : Write) : Except BusError AppendResult × FileWal :=
  match wal.writer with
  | none => (.error .io, wal)
  | some writer =>
    match (events.forM (promote codec writer.offsets.length ingestedAt)).run
      { streamPositions := writer.streamPositions } with
    | .error error batch =>
      (.error error,
        { wal with writer := some { writer with streamPositions := batch.streamPositions } })
    | .ok _ batch =>
      let writer := { writer with streamPositions := batch.streamPositions }
      match write with
      | .failed landed =>
        (.error .io, { file := wal.file ++ batch.buffer.take landed, writer := some writer })
      | .whole =>
        let baseOffset := wal.file.length
        (.ok (.of batch.recorded),
          { file := wal.file ++ batch.buffer
            writer := some (batch.relativeOffsets.foldl (fun writer relative =>
              writer.place relative.1 (baseOffset + relative.2)) writer) })

/-! ## Reading -/

/-- The records on some lines, at most `limit` of them; `place` says where the n-th one is. -/
def readLines (place : Nat → Place) : Nat → List LineBytes → LineBytes →
    Except BusError (List LogRecord)
  | 0, _, _ => .ok []
  | _ + 1, [], tail => if isText tail then .ok [] else .error .io
  | limit + 1, line :: lines, tail =>
    if isText line then
      match codec.decode line with
      | none => .error (.decode (place 0))
      | some event => do
          let events ← readLines (fun n => place (n + 1)) limit lines tail
          .ok (event :: events)
    else .error .io

/-- Read records with `global_position > after`, at most `limit` of them. -/
def readAfter (wal : FileWal) (after limit : Nat) : Except BusError (List LogRecord) :=
  match wal.writer.bind (·.offsets[after]?) with
  | none => .ok []
  | some offset =>
    let (lines, tail) := splitLines (wal.file.drop offset)
    readLines codec (fun n => .checkpoint (after + n + 1)) limit lines tail

/-- Read the records sitting at the given byte offsets, up to the first that is cut short. -/
def readAtOffsets (wal : FileWal) : List Nat → Except BusError (List LogRecord)
  | [] => .ok []
  | offset :: offsets =>
    match splitLines (wal.file.drop offset) with
    | ([], tail) => if isText tail then .ok [] else .error .io
    | (line :: _, _) =>
      if isText line then
        match codec.decode line with
        | none => .error (.decode (.offset offset))
        | some event => do
            let events ← readAtOffsets wal offsets
            .ok (event :: events)
      else .error .io

/-- Byte offsets of one stream's records. -/
def streamOffsets (wal : FileWal) (stream : String) : List Nat :=
  (wal.writer.bind (·.streamOffsets[stream]?)).getD []

def readStream (wal : FileWal) (stream : String) : Except BusError (List LogRecord) :=
  wal.readAtOffsets codec (wal.streamOffsets stream)

/-- The event after position `p` of a stream is taken to be the one at index `p`. -/
def readStreamPage (wal : FileWal) (stream : String) (after : Option Nat) (limit : Nat) :
    Except BusError StreamPage := do
  let skip := after.getD 0
  let total := (wal.streamOffsets stream).length
  let events ← wal.readAtOffsets codec (((wal.streamOffsets stream).drop skip).take limit)
  .ok (.new events (skip + events.length < total))

/-- The checkpoint of the newest event. -/
def head (wal : FileWal) : Checkpoint := wal.writer.elim Checkpoint.beginning (·.offsets.length)

end FileWal

end Aiwatcher.Bus
