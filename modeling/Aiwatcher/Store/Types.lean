import Aiwatcher.Engine.Handler
import Aiwatcher.Scheduling.Slots

/-!
# Aiwatcher.Store.Types

What a workflow store is asked to write and what it answers (`store/mod.rs`), and the
records it keeps beside the stream: the run projection and the outbox rows
(`message.rs`), the decider lease (`hosted.rs`) and the schedule slots
(`schedule/slot.rs`).
-/

namespace Aiwatcher.Store

open Engine

/-! ## Refusals -/

/-- What a workflow store refuses (`error.rs`). -/
inductive StoreError where
  | versionConflict (expected actual : Nat)
  | payloadTooLarge (size limit : Nat)
  | ownershipConflict (execution holder : String)
  | notInThisScope (what : String)
  | outOfScope (text : String)
  deriving DecidableEq, Repr

/-! ## The stream -/

/-- A message as the stream holds it. -/
structure RecordedMessage where
  streamVersion : Nat
  direction : Direction
  message : WorkflowMessage
  metadata : MessageMetadata
  recordedAt : OffsetDateTime

/-- What was appended, without where and when it landed. -/
def RecordedMessage.pending (recorded : RecordedMessage) : PendingMessage :=
  ⟨recorded.direction, recorded.message, recorded.metadata⟩

/-- One execution's stream, as loaded. -/
structure StreamSlice where
  version : Nat
  messages : List RecordedMessage

/-- The facts among the messages, in order: what `replay` folds. -/
def recordedEvents (messages : List RecordedMessage) : List WorkflowEvent :=
  (messages.filter fun recorded => recorded.direction == .output).filterMap
    fun recorded => recorded.message.event?

def StreamSlice.events (slice : StreamSlice) : List WorkflowEvent := recordedEvents slice.messages

/-- A whole stream, at the version of its last message. -/
def StreamSlice.whole (messages : List RecordedMessage) : StreamSlice := ⟨messages.length, messages⟩

/-- The messages after a version, at most `limit` of them. -/
def StreamSlice.page (messages : List RecordedMessage) (after limit : Nat) : StreamSlice :=
  ⟨messages.length,
    (messages.filter fun recorded => Decidable.decide (after < recorded.streamVersion)).take limit⟩

/-- The records of some messages appended behind `version`, all stamped with one instant. -/
def numbered (now : OffsetDateTime) : Nat → List PendingMessage → List RecordedMessage
  | _, [] => []
  | version, message :: messages =>
    ⟨version + 1, message.direction, message.message, message.metadata, now⟩ ::
      numbered now (version + 1) messages

@[simp] theorem length_numbered (now : OffsetDateTime) (version : Nat)
    (messages : List PendingMessage) : (numbered now version messages).length = messages.length := by
  induction messages generalizing version with
  | nil => rfl
  | cons m ms ih => simp [numbered, ih]

@[simp] theorem pending_numbered (now : OffsetDateTime) (version : Nat)
    (messages : List PendingMessage) :
    (numbered now version messages).map RecordedMessage.pending = messages := by
  induction messages generalizing version with
  | nil => rfl
  | cons m ms ih => simp [numbered, ih, RecordedMessage.pending]

/-! ## Beside the stream -/

/-- The run projection a store keeps beside the stream. -/
structure RunProjection where
  executionId : String
  planId : String
  definitionName : String
  owner : ExecutionOwner
  mode : ExecutionMode
  payloads : PayloadPolicy
  state : RunState
  requestedBy : String
  steps : List StepState
  lastMessageVersion : Nat
  createdAt : OffsetDateTime

/-- What an outbox row carries to the event log. -/
structure OutboxMessage where
  messageId : String
  eventType : String
  partitionKey : String
  payload : Value
  availableAt : OffsetDateTime
  attempts : UInt32
  publishedAt : Option OffsetDateTime
  lastError : Option String

/-- The partition an execution's rows are addressed by. -/
def partitionOf (execution : String) : String := "workflow:" ++ execution

/-- A cursor over the event log. -/
abbrev Checkpoint := String

/-- Which timer, of which execution. -/
structure TimerKey where
  execution : String
  timerId : String
  deriving DecidableEq, Repr

namespace TimerKey

instance : Ord TimerKey where
  compare := compareLex (compareOn execution) (compareOn timerId)

instance : Std.TransOrd TimerKey :=
  inferInstanceAs (Std.TransCmp (compareLex (compareOn execution) (compareOn timerId)))

instance : Std.LawfulEqOrd TimerKey :=
  Library.Table.lawfulEq_compareLex fun a b => by
    cases a
    cases b
    simp_all

end TimerKey

/-- The deferred appends of every execution. -/
abbrev Timers := BTreeMap TimerKey Timer

/-- Where a timer's row is kept. -/
def timerKey (timer : Timer) : TimerKey := ⟨timer.execution, timer.timerId⟩

/-- What the store makes of a timer write of `execution`'s decision. -/
def timerWrite (execution : String) : TimerWrite → Library.Write TimerKey Timer
  | .schedule timer => .put (timerKey timer) timer
  | .cancel timerId | .fire timerId => .drop ⟨execution, timerId⟩

/-- The timer table's part of an `append`. -/
def Timers.append (timers : Timers) (execution : String) (writes : List TimerWrite) : Timers :=
  Library.Write.applyAll timers (writes.map (timerWrite execution))

/-! ## Decider leases -/

/-- Who is deciding a hosted run, and since when. -/
structure DeciderLease where
  execution : String
  holder : String
  claimedAt : OffsetDateTime
  previousHolder : Option String
  deriving DecidableEq, Repr

namespace DeciderLease

def takenBy (execution holder : String) (now : OffsetDateTime) : DeciderLease :=
  ⟨execution, holder, now, none⟩

def expiresAt (lease : DeciderLease) : OffsetDateTime :=
  lease.claimedAt + Duration.seconds leaseSeconds

def expired (lease : DeciderLease) (now : OffsetDateTime) : Bool :=
  leaseExpired (some lease.claimedAt) now

def heldBy (lease : DeciderLease) (holder : String) (now : OffsetDateTime) : Bool :=
  lease.holder == holder && !lease.expired now

/-- Take this for `holder`: renewing keeps who held it before. -/
def take (lease : DeciderLease) (holder : String) (now : OffsetDateTime) : DeciderLease :=
  { lease with
    previousHolder := if lease.holder != holder then some lease.holder else lease.previousHolder
    holder := holder
    claimedAt := now }

end DeciderLease

/-- What asking for a decider lease did. -/
inductive LeaseOutcome where
  | taken (lease : DeciderLease)
  | held (holder : String) (expiresAt : OffsetDateTime)
  deriving DecidableEq, Repr

/-! ## Schedule slots -/

/-- The slot a definition is due for. -/
structure SlotKey where
  definitionKind : DefinitionKind
  definitionName : String
  slot : OffsetDateTime
  deriving DecidableEq, Repr

/-- Kinds in declaration order. -/
def kindRank : DefinitionKind → Nat
  | .curationPipeline => 0
  | .workflow => 1
  | .evaluation => 2

theorem kindRank_inj {a b : DefinitionKind} (h : kindRank a = kindRank b) : a = b := by
  cases a <;> cases b <;> simp_all [kindRank]

namespace SlotKey

instance : Ord SlotKey where
  compare := compareLex (compareOn fun key => kindRank key.definitionKind)
    (compareLex (compareOn definitionName) (compareOn slot))

instance : Std.TransOrd SlotKey :=
  inferInstanceAs (Std.TransCmp (compareLex (compareOn fun key => kindRank key.definitionKind)
    (compareLex (compareOn definitionName) (compareOn slot))))

instance : Std.LawfulEqOrd SlotKey where
  eq_of_compare {a b} h := by
    have hlex : compareLex (compareOn fun key => kindRank key.definitionKind)
        (compareLex (compareOn definitionName) (compareOn slot)) a b = .eq := h
    rw [compareLex_eq_eq, compareLex_eq_eq] at hlex
    obtain ⟨h₁, h₂, h₃⟩ := hlex
    have h₁ : a.definitionKind = b.definitionKind := kindRank_inj (Std.LawfulEqOrd.eq_of_compare h₁)
    have h₂ : a.definitionName = b.definitionName := Std.LawfulEqOrd.eq_of_compare h₂
    have h₃ : a.slot = b.slot := Std.LawfulEqOrd.eq_of_compare h₃
    cases a
    cases b
    simp_all

end SlotKey

/-- What the tick decided about one slot. -/
inductive SlotOutcome where
  | started | skipped | refused
  deriving DecidableEq, Repr

/-- What a caller says about a slot it holds. -/
inductive SlotSettlement where
  | started (executionId : String)
  | skipped (executionId : String)
  | refused (detail : String)
  | tryAgain (detail : String)
  deriving DecidableEq, Repr

namespace SlotSettlement

def outcome : SlotSettlement → Option SlotOutcome
  | .started _ => some .started
  | .skipped _ => some .skipped
  | .refused _ => some .refused
  | .tryAgain _ => none

def executionId : SlotSettlement → Option String
  | .started id | .skipped id => some id
  | .refused _ | .tryAgain _ => none

def detail : SlotSettlement → Option String
  | .refused detail | .tryAgain detail => some detail
  | .started _ | .skipped _ => none

end SlotSettlement

/-- A slot as the store holds it. -/
structure SlotRecord where
  key : SlotKey
  outcome : Option SlotOutcome
  executionId : Option String
  detail : Option String
  leaseOwner : Option String
  leasedAt : Option OffsetDateTime
  updatedAt : OffsetDateTime
  deriving DecidableEq, Repr

namespace SlotRecord

/-- Whether this slot may be taken now. -/
def isAvailable (record : SlotRecord) (now : OffsetDateTime) : Bool :=
  record.outcome.isNone && leaseExpired record.leasedAt now

/-- A slot taken by `owner`, what went wrong before still beside it. -/
def admitted (key : SlotKey) (owner : String) (now : OffsetDateTime) (detail : Option String) :
    SlotRecord :=
  ⟨key, none, none, detail, some owner, some now, now⟩

/-- What a settlement by the holder makes of a slot. -/
def settle (record : SlotRecord) (settlement : SlotSettlement) (now : OffsetDateTime) : SlotRecord :=
  match settlement with
  | .tryAgain detail =>
    { record with leaseOwner := none, leasedAt := none, detail := some detail, updatedAt := now }
  | decided =>
    { record with
      outcome := decided.outcome
      executionId := decided.executionId
      detail := decided.detail
      leaseOwner := none
      leasedAt := none
      updatedAt := now }

end SlotRecord

/-- What a caller asks for when it wants to run one slot. -/
structure SlotAdmissionRequest where
  key : SlotKey
  owner : String
  overlap : Scheduling.OverlapPolicy
  now : OffsetDateTime

/-- The store's answer. -/
inductive SlotAdmission where
  | admitted
  | settled (outcome : SlotOutcome)
  | held (owner : String)
  | blocked (executionId : String)
  deriving DecidableEq, Repr

/-! ## Retention -/

/-- What one pass of a retention sweep removed. -/
structure Pruned where
  executions : Nat
  attempts : Nat
  deriving DecidableEq, Repr

/-- Whether one execution may be forgotten, given a cutoff. -/
def prunable (run : RunProjection) (lastActivity before : OffsetDateTime) : Bool :=
  run.state.stateType.isTerminal && Decidable.decide (lastActivity < before)

/-- Whether this event is the terminal outcome of that attempt. -/
def settles (event : WorkflowEvent) (step : String) (attempt : UInt32) : Bool :=
  match event with
  | .stepCompleted stepId recorded .. | .stepFailed stepId recorded _ =>
    stepId == step && recorded == attempt
  | _ => false

/-! ## Waiting attempts -/

/-- Whether a reactor still has to take this row. -/
def awaitsAReactor (row : AttemptRow) (now : OffsetDateTime) : Bool :=
  row.queue.isNone && row.awaitsAClaimant now

/-- Every runtime, in declaration order. -/
def runtimeKinds : List RuntimeKind :=
  [.flowPhp, .dataFusion, .duckDb, .marimo, .publishDataset, .pythonTask, .containerJob,
    .scoreEvaluation, .judgeEvaluation, .externalEvaluation, .evaluationCases, .evaluationTraces,
    .humanInput]

/-- How many rows are waiting for a reactor, by the runtime that would run them. -/
def tallyUnclaimed (rows : List AttemptRow) (now : OffsetDateTime) : List (RuntimeKind × Nat) :=
  (runtimeKinds.map fun kind =>
    (kind, rows.countP fun row => awaitsAReactor row now && row.runtime == kind)).filter
      fun counted => Decidable.decide (0 < counted.2)

/-- The rows of one runtime somebody may take now, at most `limit` of them. -/
def claimableOf (rows : List AttemptRow) (runtime : RuntimeKind) (now : OffsetDateTime)
    (limit : Nat) : List AttemptRow :=
  (rows.filter fun row => row.runtime == runtime && row.isClaimable now).take limit

end Aiwatcher.Store
