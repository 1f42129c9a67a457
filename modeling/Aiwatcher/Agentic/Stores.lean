import Aiwatcher.Agentic.Messages

/-!
# Aiwatcher.Agentic.Stores

The workflow engine's event stores, in memory (`event_store.py`) and over SQLite
(`sqlite_event_store.py`), one operation at a time, without projections and hooks.

The ids and times an append takes from outside come with it.  How a message is written into a
row, and read back, is a parameter; texts have no NUL in them.
-/

namespace Aiwatcher.Agentic

inductive ExpectedVersion where
  | at_ (version : Nat)
  | streamExists
  | streamDoesNotExist
  | noConcurrencyCheck
  deriving DecidableEq, Repr

/-- `_check_expected_version` -/
def expects (current : Nat) : ExpectedVersion → Bool
  | .noConcurrencyCheck => true
  | .streamDoesNotExist => current == 0
  | .streamExists => current != 0
  | .at_ version => current == version

/-- What is asked of a store. -/
inductive Operation where
  | append (streamName : String) (events : List Message) (expected : ExpectedVersion)
      (fresh : Nat → Fresh) (recordedAtNs : Int)
  | readStream (streamName : String) (fromPosition : Int) (maxCount : Option Int)
  | readAll (fromPosition : Int) (maxCount : Option Int) (streamPrefix : Option String)
  | streamExists (streamName : String)

inductive Answer where
  | appended (nextVersion : Nat)
  | conflict (streamName : String) (expected : ExpectedVersion) (current : Nat)
  | duplicate (streamName : String)
  | stream (events : List Message) (currentVersion : Nat) (streamExists : Bool)
  | all (events : List Message) (nextPosition endPosition : Nat)
  | exists_ (streamExists : Bool)
  /-- A message could not be written, or a row not read. -/
  | unreadable

/-- The messages of an append, as they are recorded. -/
def recordedFrom (streamName : String) (fresh : Nat → Fresh) (recordedAtNs : Int)
    (current total : Nat) (events : List Message) : List Message :=
  events.mapIdx fun index event =>
    normalizeRecordedMessage (fresh index)
      (some ⟨streamName, current + index, total + index, recordedAtNs⟩) event

/-- `events[fromPosition:]` -/
def sliceFrom (events : List Message) (fromPosition : Int) : List Message :=
  if fromPosition < 0 then events.drop (events.length + fromPosition).toNat
  else events.drop fromPosition.toNat

/-- `events[:maxCount]` -/
def sliceTo (events : List Message) : Option Int → List Message
  | none => events
  | some maxCount =>
    if maxCount < 0 then events.take (events.length + maxCount).toNat
    else events.take maxCount.toNat

def positionOf (event : Message) : Nat := event.metadata.globalPosition.getD 0

/-- The position behind the last message read. -/
def nextPosition (events : List Message) (end_ : Nat) : Nat :=
  match events.getLast? with
  | some last => positionOf last + 1
  | none => end_

/-! ## In memory -/

structure InMemoryEventStore where
  streams : BTreeMap String (List Message)
  allEvents : List Message
  idempotencyKeys : List (String × String)
  eventIds : List String

def keyOf (event : Message) : Option (String × String) :=
  if event.metadata.idempotencyKey = "" then none
  else some (event.metadata.streamName, event.metadata.idempotencyKey)

def eventIdOf (event : Message) : Option String :=
  if event.metadata.eventId = "" then none else some event.metadata.eventId

namespace InMemoryEventStore

def new : InMemoryEventStore := ⟨∅, [], [], []⟩

variable (upcast : Message → Message) (store : InMemoryEventStore)

def appendToStream (streamName : String) (events : List Message) (expected : ExpectedVersion)
    (fresh : Nat → Fresh) (recordedAtNs : Int) : Answer × InMemoryEventStore :=
  let previous := (store.streams[streamName]?).getD []
  let current := previous.length
  if expects current expected then
    let recorded := recordedFrom streamName fresh recordedAtNs current store.allEvents.length events
    let keys := recorded.filterMap keyOf
    let eventIds := recorded.filterMap eventIdOf
    if keys.Nodup ∧ eventIds.Nodup ∧ (∀ key ∈ keys, key ∉ store.idempotencyKeys) ∧
        ∀ eventId ∈ eventIds, eventId ∉ store.eventIds then
      (.appended (current + recorded.length),
        { streams := store.streams.insert streamName (previous ++ recorded)
          allEvents := store.allEvents ++ recorded
          idempotencyKeys := store.idempotencyKeys ++ keys
          eventIds := store.eventIds ++ eventIds })
    else (.duplicate streamName, store)
  else (.conflict streamName expected current, store)

def readStream (streamName : String) (fromPosition : Int) (maxCount : Option Int) : Answer :=
  let events := (store.streams[streamName]?).getD []
  .stream ((sliceTo (sliceFrom events fromPosition) maxCount).map upcast) events.length
    (store.streams[streamName]?).isSome

def candidates (fromPosition : Int) (streamPrefix : Option String) : List Message :=
  store.allEvents.filter fun event => decide (fromPosition ≤ positionOf event) &&
    streamPrefix.all fun front => front.toList.isPrefixOf event.metadata.streamName.toList

def readAll (fromPosition : Int) (maxCount : Option Int) (streamPrefix : Option String) : Answer :=
  let events := sliceTo (store.candidates fromPosition streamPrefix) maxCount
  .all (events.map upcast) (nextPosition events store.allEvents.length) store.allEvents.length

def perform : Operation → Answer × InMemoryEventStore
  | .append streamName events expected fresh recordedAtNs =>
    store.appendToStream streamName events expected fresh recordedAtNs
  | .readStream streamName fromPosition maxCount =>
    (store.readStream upcast streamName fromPosition maxCount, store)
  | .readAll fromPosition maxCount streamPrefix =>
    (store.readAll upcast fromPosition maxCount streamPrefix, store)
  | .streamExists streamName => (.exists_ (store.streams[streamName]?).isSome, store)

end InMemoryEventStore

/-! ## Over SQLite -/

/-- A row of `event_messages`. -/
structure EventRow where
  globalPosition : Nat
  streamName : String
  streamPosition : Nat
  createdAtNs : Int
  payload : String
  deriving DecidableEq, Repr

/-- A row of `event_idempotency_keys`. -/
structure KeyRow where
  streamName : String
  idempotencyKey : String
  eventId : String
  deriving DecidableEq, Repr

structure SQLiteEventStore where
  versions : BTreeMap String Nat
  rows : List EventRow
  keys : List KeyRow

/-- How messages are written and read (`serialize_record` and `deserialize_record`, and a codec). -/
structure Serialization where
  serialize : Message → Option String
  deserialize : String → Option Message

/-- A bound parameter is a 64-bit integer. -/
def fits (n : Int) : Bool := decide (-9223372036854775808 ≤ n) && decide (n ≤ 9223372036854775807)

/-- The rows with the smallest positions, in order: `ORDER BY` and `LIMIT`. -/
def selected (key : EventRow → Nat) (rows : List EventRow) : Option Int → List EventRow
  | none => rows.mergeSort fun one other => decide (key one ≤ key other)
  | some limit =>
    let sorted := rows.mergeSort fun one other => decide (key one ≤ key other)
    if limit < 0 then sorted else sorted.take limit.toNat

/-- `LIKE` without an escape: `%` stands for any text, `_` for any character, and the letters of
ASCII for themselves in either case. -/
def like : List Char → List Char → Bool
  | [], text => text.isEmpty
  | '%' :: pattern, text => text.tails.any (like pattern)
  | '_' :: pattern, text =>
    match text with
    | _ :: text => like pattern text
    | [] => false
  | letter :: pattern, text =>
    match text with
    | c :: text => letter.toLower == c.toLower && like pattern text
    | [] => false

def keyRowOf (event : Message) : Option KeyRow :=
  if event.metadata.idempotencyKey = "" ∨ event.metadata.eventId = "" then none
  else some ⟨event.metadata.streamName, event.metadata.idempotencyKey, event.metadata.eventId⟩

/-- `PRIMARY KEY(stream_name, idempotency_key)` and `UNIQUE(event_id)`. -/
def KeyRow.clashes (one other : KeyRow) : Bool :=
  one.streamName == other.streamName && one.idempotencyKey == other.idempotencyKey ||
    one.eventId == other.eventId

def insertKeys : List KeyRow → List KeyRow → Option (List KeyRow)
  | [], keys => some keys
  | row :: rows, keys => if keys.any row.clashes then none else insertKeys rows (keys ++ [row])

namespace SQLiteEventStore

def new : SQLiteEventStore := ⟨∅, [], []⟩

variable (serialization : Serialization) (upcast : Message → Message) (store : SQLiteEventStore)

def currentVersion (streamName : String) : Nat := (store.versions[streamName]?).getD 0

/-- `SELECT COALESCE(MAX(global_position), -1) + 1` -/
def nextGlobalPosition : Nat := (store.rows.map (·.globalPosition + 1)).foldl max 0

def appendToStream (streamName : String) (events : List Message) (expected : ExpectedVersion)
    (fresh : Nat → Fresh) (recordedAtNs : Int) : Answer × SQLiteEventStore :=
  let current := store.currentVersion streamName
  if events.isEmpty then (.appended current, store)
  else if expects current expected then
    let total := store.nextGlobalPosition
    let recorded := recordedFrom streamName fresh recordedAtNs current total events
    match recorded.mapM serialization.serialize with
    | none => (.unreadable, store)
    | some payloads =>
      match insertKeys (recorded.filterMap keyRowOf) store.keys with
      | none => (.duplicate streamName, store)
      | some keys =>
        (.appended (current + events.length),
          { versions := store.versions.insert streamName (current + events.length)
            rows := store.rows ++ payloads.mapIdx fun index payload =>
              ⟨total + index, streamName, current + index, recordedAtNs, payload⟩
            keys := keys })
  else (.conflict streamName expected current, store)

/-- `_bind_positions`, over what the row's payload reads as; all of its envelope is there. -/
def bindPositions (fresh : Fresh) (row : EventRow) : Option Message :=
  (serialization.deserialize row.payload).map (normalizeRecordedMessage fresh
    (some ⟨row.streamName, row.streamPosition, row.globalPosition, row.createdAtNs⟩))

def readStream (fresh : Fresh) (streamName : String) (fromPosition : Int)
    (maxCount : Option Int) : Answer :=
  let version := store.currentVersion streamName
  let rows := selected (·.streamPosition) (store.rows.filter fun row =>
    row.streamName == streamName && decide (fromPosition ≤ row.streamPosition)) maxCount
  match fits fromPosition && maxCount.all fits, rows.mapM (bindPositions serialization fresh) with
  | false, _ => .unreadable
  | true, none => .unreadable
  | true, some messages => .stream (messages.map upcast) version (decide (0 < version))

def readAll (fresh : Fresh) (fromPosition : Int) (maxCount : Option Int)
    (streamPrefix : Option String) : Answer :=
  let rows := selected (·.globalPosition) (store.rows.filter fun row =>
    decide (fromPosition ≤ row.globalPosition) && streamPrefix.all fun front =>
      like (front.toList ++ ['%']) row.streamName.toList) maxCount
  match fits fromPosition && maxCount.all fits, rows.mapM (bindPositions serialization fresh) with
  | false, _ => .unreadable
  | true, none => .unreadable
  | true, some messages => .all (messages.map upcast)
      (nextPosition messages store.nextGlobalPosition) store.nextGlobalPosition

def perform (fresh : Fresh) : Operation → Answer × SQLiteEventStore
  | .append streamName events expected fresh recordedAtNs =>
    store.appendToStream serialization streamName events expected fresh recordedAtNs
  | .readStream streamName fromPosition maxCount =>
    (store.readStream serialization upcast fresh streamName fromPosition maxCount, store)
  | .readAll fromPosition maxCount streamPrefix =>
    (store.readAll serialization upcast fresh fromPosition maxCount streamPrefix, store)
  | .streamExists streamName =>
    (.exists_ (decide (0 < store.currentVersion streamName)), store)

end SQLiteEventStore

end Aiwatcher.Agentic
