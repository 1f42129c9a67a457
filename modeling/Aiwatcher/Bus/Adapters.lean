import Aiwatcher.Bus.Wal
import Aiwatcher.Library.Feed

/-!
# Aiwatcher.Bus.Adapters

Everything in a list, plus a broadcast for live tailing (`adapters/memory.rs`).

Both adapters whole, their checkpoints too (`adapters/memory.rs`, `adapters/wal.rs`): what each
answers to an operation, as machines.

The longest name the file system takes is a parameter.
-/

namespace Aiwatcher.Bus

open Library

structure Log where
  events : List LogRecord := []
  /-- Next stream position per stream. -/
  streamPositions : BTreeMap String Nat := ∅

namespace Log

/-! ## Appending -/

/-- One envelope becomes a record of the log. -/
def put (ingestedAt : OffsetDateTime) (envelope : EventEnvelope) : EStateM BusError Log LogRecord := do
  MonadExcept.ofExcept (envelope.validate.mapError .invalid)
  let stream := envelope.streamName
  modify fun log => { log with
    streamPositions := log.streamPositions.insert stream
      (log.streamPositions[stream]?.getD 0 + 1) }
  let log ← get
  let event := envelope.record (log.streamPositions[stream]?.getD 0) (log.events.length + 1)
    ingestedAt
  set { log with events := log.events ++ [event] }
  pure event

/-- The events of a batch, one after another: a refusal keeps those before it. -/
def append (events : List EventEnvelope) (ingestedAt : OffsetDateTime) :
    EStateM BusError Log AppendResult := do
  let recorded ← events.mapM (put ingestedAt)
  pure (.of recorded)

/-! ## Reading -/

/-- Records with `global_position > after`, at most `limit` of them. -/
def read (log : Log) (after limit : Nat) : List LogRecord :=
  (log.events.filter fun event => after < event.globalPosition).take limit

def readStream (log : Log) (stream : String) : List LogRecord := ofStream stream log.events

/-- One more than asked for is taken: whether it is there is the answer to `has_more`. -/
def readStreamPage (log : Log) (stream : String) (after : Option Nat) (limit : Nat) : StreamPage :=
  let events := ((ofStream stream log.events).filter fun event =>
    after.all fun cursor => cursor < event.streamPosition).take (limit + 1)
  .new (events.take limit) (limit < events.length)

/-- The checkpoint of the newest event. -/
def head (log : Log) : Checkpoint := log.events.getLast?.elim Checkpoint.beginning (·.checkpoint)

end Log

inductive BusAct where
  /-- `write` is what becomes of it on the disk, where there is one. -/
  | append (events : List EventEnvelope) (ingestedAt : OffsetDateTime) (write : Write)
  | read («from» : Checkpoint) (limit : Nat)
  | readStream (stream : String)
  | readStreamPage (stream : String) (after : Option Nat) (limit : Nat)
  | head
  | load (processorId : String)
  | save (processorId : String) (checkpoint : Checkpoint)

inductive BusAnswer where
  | appended (result : AppendResult)
  | events (events : List LogRecord)
  | page (page : StreamPage)
  | checkpoint (checkpoint : Option Checkpoint)
  | saved
  | failed (error : BusError)
  deriving DecidableEq, Repr

def answered {α : Type} (answer : α → BusAnswer) : Except BusError α → BusAnswer
  | .ok result => answer result
  | .error error => .failed error

/-! ## In memory -/

structure InMemoryBus where
  log : Log := {}
  checkpoints : BTreeMap String Checkpoint := ∅

def InMemoryBus.perform (bus : InMemoryBus) : BusAct → BusAnswer × InMemoryBus
  | .append events ingestedAt _ =>
    match (Log.append events ingestedAt).run bus.log with
    | .ok result log => (.appended result, { bus with log })
    | .error error log => (.failed error, { bus with log })
  | .read after limit => (.events (bus.log.read after limit), bus)
  | .readStream stream => (.events (bus.log.readStream stream), bus)
  | .readStreamPage stream after limit => (.page (bus.log.readStreamPage stream after limit), bus)
  | .head => (.checkpoint (some bus.log.head), bus)
  | .load processorId => (.checkpoint bus.checkpoints[processorId]?, bus)
  | .save processorId checkpoint =>
    (.saved, { bus with checkpoints := bus.checkpoints.insert processorId checkpoint })

def memoryBus : Machine InMemoryBus BusAct BusAnswer where
  step bus act := some ([(bus.perform act).1], (bus.perform act).2)

/-! ## In files -/

/-- Read a checkpoint back. -/
def Checkpoint.parse (value : String) : Except CoreError Checkpoint :=
  if value = "" then .ok beginning
  else if value.toList.all Char.isDigit then
    let position := Nat.ofDigitChars 10 value.toList 0
    if position < 2 ^ 64 then .ok position
    else .error (.invalidCheckpoint value "does not fit in u64")
  else .error (.invalidCheckpoint value "expected a zero-padded decimal position")

/-- The name of a processor's file: a path separator would escape the directory. -/
def checkpointPath (processorId : String) : String :=
  String.ofList (processorId.toList.map fun c =>
    if c.isAlphanum || c == '-' || c == '_' then c else '_')

/-- The log, and what the files of the checkpoints directory hold. -/
structure FileBus where
  wal : FileWal := {}
  checkpoints : BTreeMap String String := ∅

namespace FileBus

variable (nameMax : Nat)

/-- Whether a file can have a name: the empty one is the directory's. -/
def named (name : String) : Bool := name ≠ "" && name.length ≤ nameMax

def load (bus : FileBus) (processorId : String) : Except BusError (Option Checkpoint) :=
  let path := checkpointPath processorId
  if named nameMax path then
    match bus.checkpoints[path]? with
    | some raw => ((Checkpoint.parse (trim raw)).map some).mapError .invalid
    | none => .ok none
  else .error .io

/-- What is saved is written to a file with an extension, and that is renamed. -/
def save (bus : FileBus) (processorId : String) (checkpoint : Checkpoint) :
    Except BusError Unit × FileBus :=
  let path := checkpointPath processorId
  if named nameMax path && named nameMax (path ++ ".tmp") then
    (.ok (), { bus with checkpoints := bus.checkpoints.insert path (padded checkpoint) })
  else (.error .io, bus)

variable (codec : RecordCodec LogRecord)

def perform (bus : FileBus) : BusAct → BusAnswer × FileBus
  | .append events ingestedAt write =>
    let (answer, wal) := bus.wal.append codec events ingestedAt write
    (answered .appended answer, { bus with wal })
  | .read after limit => (answered .events (bus.wal.readAfter codec after limit), bus)
  | .readStream stream => (answered .events (bus.wal.readStream codec stream), bus)
  | .readStreamPage stream after limit =>
    (answered .page (bus.wal.readStreamPage codec stream after limit), bus)
  | .head => (.checkpoint (some bus.wal.head), bus)
  | .load processorId => (answered .checkpoint (bus.load nameMax processorId), bus)
  | .save processorId checkpoint =>
    let (answer, bus) := bus.save nameMax processorId checkpoint
    (answered (fun _ => .saved) answer, bus)

end FileBus

def fileBus (codec : RecordCodec LogRecord) (nameMax : Nat) :
    Machine FileBus BusAct BusAnswer where
  step bus act := some ([(bus.perform nameMax codec act).1], (bus.perform nameMax codec act).2)

end Aiwatcher.Bus
