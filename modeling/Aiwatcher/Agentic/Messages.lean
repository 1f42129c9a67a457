import Aiwatcher.Core

/-!
# Aiwatcher.Agentic.Messages

The messages of the workflow engine, and what completes their envelope when they are recorded
(`messages.py`).
-/

namespace Aiwatcher.Agentic

/-- What `RecordedMessageMetadata` adds. -/
structure RecordedIds where
  eventId : String
  messageId : String
  deriving DecidableEq, Repr

/-- `ids` is there if the metadata is a `RecordedMessageMetadata`. -/
structure MessageMetadata where
  ids : Option RecordedIds
  runtimeId : String
  turnId : String
  replyToMessageId : Option String
  correlationId : String
  causationId : Option String
  idempotencyKey : String
  contractName : String
  occurredAtNs : Int
  recordedAtNs : Option Int
  workflowAction : Option String
  streamName : String
  streamPosition : Option Nat
  globalPosition : Option Nat
  deriving DecidableEq, Repr

namespace MessageMetadata

/-- `getattr(metadata, "message_id", "")` -/
def messageId (metadata : MessageMetadata) : String := (metadata.ids.map (·.messageId)).getD ""

def eventId (metadata : MessageMetadata) : String := (metadata.ids.map (·.eventId)).getD ""

end MessageMetadata

/-- A message; `bound` is the contract name its class is bound to, or empty. -/
structure Message where
  type : String
  bound : String
  data : Value
  metadata : MessageMetadata

/-- Where a message is recorded, and when. -/
structure Place where
  streamName : String
  streamPosition : Nat
  globalPosition : Nat
  recordedAtNs : Int
  deriving DecidableEq, Repr

/-- What recording one message takes from outside: two random ids and the clock. -/
structure Fresh where
  messageId : String
  eventId : String
  nowNs : Int
  messageId_ne : messageId ≠ ""
  eventId_ne : eventId ≠ ""
  nowNs_pos : 0 < nowNs

/-- Complete the durable envelope while preserving explicitly supplied values. -/
def completed (fresh : Fresh) (message : Message) : MessageMetadata :=
  let metadata := message.metadata
  let ids := metadata.ids.map fun ids : RecordedIds =>
    { messageId := if ids.messageId = "" then fresh.messageId else ids.messageId
      eventId := if ids.eventId = "" then fresh.eventId else ids.eventId : RecordedIds }
  let messageId := (ids.map (·.messageId)).getD ""
  { metadata with
    ids := ids
    turnId := if metadata.turnId = "" then metadata.runtimeId else metadata.turnId
    correlationId :=
      if metadata.correlationId = "" then
        if metadata.turnId ≠ "" then metadata.turnId
        else if metadata.runtimeId ≠ "" then metadata.runtimeId
        else messageId
      else metadata.correlationId
    causationId :=
      if metadata.causationId = none ∧ metadata.replyToMessageId ≠ some "" then
        metadata.replyToMessageId
      else metadata.causationId
    idempotencyKey := if metadata.idempotencyKey = "" then messageId else metadata.idempotencyKey
    contractName :=
      if metadata.contractName = "" then
        if message.bound ≠ "" then message.bound else message.type
      else metadata.contractName
    occurredAtNs := if metadata.occurredAtNs ≤ 0 then fresh.nowNs else metadata.occurredAtNs }

def normalizeRecordedMessage (fresh : Fresh) (place : Option Place) (message : Message) : Message :=
  let metadata := completed fresh message
  { message with
    metadata :=
      match place with
      | none => metadata
      | some place =>
        { metadata with
          streamName := place.streamName
          streamPosition := some place.streamPosition
          globalPosition := some place.globalPosition
          recordedAtNs := some place.recordedAtNs } }

theorem normalizeRecordedMessage_again (fresh fresh' : Fresh) (place : Place) (message : Message) :
    normalizeRecordedMessage fresh' (some place)
        (normalizeRecordedMessage fresh (some place) message) =
      normalizeRecordedMessage fresh (some place) message := by
  have hmessage := fresh.messageId_ne
  have hevent := fresh.eventId_ne
  have hnow := fresh.nowNs_pos
  obtain ⟨type, bound, data, metadata⟩ := message
  obtain ⟨ids, runtime, turn, reply, correlation, causation, key, contract, occurred, recorded,
    action, stream, position, «global»⟩ := metadata
  simp only [normalizeRecordedMessage, completed, Message.mk.injEq, MessageMetadata.mk.injEq]
  cases ids with
  | none => grind
  | some ids => grind

theorem idempotencyKey_ne_of_eventId (fresh : Fresh) (message : Message)
    (h : (completed fresh message).eventId ≠ "") :
    (completed fresh message).idempotencyKey ≠ "" := by
  have hmessage := fresh.messageId_ne
  simp only [completed, MessageMetadata.eventId] at h ⊢
  cases hids : message.metadata.ids with
  | none => simp [hids] at h
  | some ids => grind

end Aiwatcher.Agentic
