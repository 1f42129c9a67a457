import Aiwatcher.Bus.Adapters
import Aiwatcher.Bus.Indexed

/-!
# Aiwatcher.Bus.Subscribed

Subscriptions to the two logs (`subscribe` of `adapters/memory.rs` and `adapters/wal.rs`), as
sources of a feed: what an append leaves to publish, where a subscription starts, and how it is
replayed.

The log in memory keeps its records' positions whatever is appended, and a subscription's backlog
is what it is due of the log it was taken of (`memoryInvariant`).
-/

namespace Aiwatcher.Bus

open Library List

/-- Where a subscription starts. -/
inductive StartFrom where
  | beginning
  | now
  | after (checkpoint : Checkpoint)
  deriving DecidableEq, Repr

structure SubscribeOptions where
  «from» : StartFrom := .now
  batchSize : Nat := 256
  stream : Option String := none
  deriving DecidableEq, Repr

def BROADCAST_CAPACITY : Nat := 4096

def matchesStream (options : SubscribeOptions) (event : LogRecord) : Bool :=
  options.stream.all fun stream => event.streamName = stream

def startOf (options : SubscribeOptions) (head : Nat) : Nat :=
  match options.from with
  | .beginning => 0
  | .now => head
  | .after checkpoint => checkpoint

/-! ## In memory -/

structure Append where
  events : List EventEnvelope
  ingestedAt : OffsetDateTime

/-- What is left of the backlog, as the log stood at subscribe time. -/
structure Backlog where
  events : List LogRecord
  head : Nat

def memorySource : LogSource Log Append SubscribeOptions Backlog LogRecord where
  position event := event.globalPosition
  records log := log.events
  act log append :=
    match (Log.append append.events append.ingestedAt).run log with
    | .ok result log => some (log, [result.recorded])
    | .error _ log => some (log, [])
  wanted := matchesStream
  opens log options :=
    let start := startOf options log.events.length
    some (start, {
      events := (log.events.filter fun event => start < event.globalPosition).filter
        (matchesStream options)
      head := log.events.length })
  replay _ _ delivered backlog :=
    match backlog.events with
    | event :: events => .goes {
        handed := some (.event event)
        delivered := max delivered event.globalPosition
        replay := some { backlog with events } }
    | [] => .goes {
        handed := some (.caughtUp (max backlog.head delivered))
        delivered
        replay := none }
  marksAll := false

/-! ## In the file -/

/-- An append that holds the writer's lock, and how much of its batch is in the file. -/
structure Writing where
  append : Append
  buffer : LineBytes
  landed : Nat := 0

/-- The log between its steps. -/
structure WalLog where
  wal : FileWal := {}
  writing : Option Writing := none

inductive WalStep where
  /-- An append takes the lock and builds its batch; a refusal lets go of it. -/
  | begins (append : Append)
  | lands (bytes : Nat)
  | finishes
  | fails

inductive WalReplay where
  | look
  | read (offset : Nat)
  | batch (events : List LogRecord)

namespace WalLog

/-- The bytes that stand in the file. -/
def file (log : WalLog) : LineBytes :=
  log.wal.file ++ log.writing.elim [] fun writing => writing.buffer.take writing.landed

/-- The records on the complete lines of the file. -/
def records (codec : RecordCodec LogRecord) (log : WalLog) : List LogRecord :=
  (splitLines log.file).1.filterMap codec.decode

def act (codec : RecordCodec LogRecord) (log : WalLog) :
    WalStep → Option (WalLog × List (List LogRecord))
  | .begins append =>
    match log.writing, log.wal.writer with
    | none, some writer =>
      match (append.events.forM (promote codec writer.offsets.length append.ingestedAt)).run
        { streamPositions := writer.streamPositions } with
      | .ok _ batch =>
        some ({ log with writing := some { append, buffer := batch.buffer } }, [])
      | .error _ _ => some ({ log with
          wal := (log.wal.append codec append.events append.ingestedAt .whole).2 }, [])
    | _, _ => none
  | .lands bytes => log.writing.map fun writing =>
    ({ log with writing := some { writing with landed := writing.landed + bytes } }, [])
  | .finishes => log.writing.map fun writing =>
    let (answer, wal) :=
      log.wal.append codec writing.append.events writing.append.ingestedAt .whole
    ({ wal }, match answer with
      | .ok result => [result.recorded]
      | .error _ => [])
  | .fails => log.writing.map fun writing =>
    ({ wal := (log.wal.append codec writing.append.events writing.append.ingestedAt
      (.failed writing.landed)).2 }, [])

end WalLog

def walSource (codec : RecordCodec LogRecord) :
    LogSource WalLog WalStep SubscribeOptions WalReplay LogRecord where
  position event := event.globalPosition
  records := WalLog.records codec
  act := WalLog.act codec
  wanted := matchesStream
  opens log options :=
    if log.writing.isSome then none else some (startOf options log.wal.head, .look)
  replay log options delivered
    | .look =>
      if log.writing.isSome then .waits
      else match log.wal.writer.bind (·.offsets[delivered]?) with
        | some offset => .goes { delivered, replay := some (.read offset) }
        | none => .goes { handed := some (.caughtUp delivered), delivered, replay := none }
    | .read offset =>
      let (lines, tail) := splitLines (log.file.drop offset)
      match FileWal.readLines codec (fun n => .checkpoint (delivered + n + 1))
        (max options.batchSize 1) lines tail with
      | .error _ => .fails
      | .ok [] => .goes { handed := some (.caughtUp delivered), delivered, replay := none }
      | .ok (event :: events) => .goes { delivered, replay := some (.batch (event :: events)) }
    | .batch [] => .goes { delivered, replay := some .look }
    | .batch (event :: events) => .goes {
        handed := if matchesStream options event then some (.event event) else none
        delivered := event.globalPosition
        replay := some (.batch events) }
  marksAll := true

open Refusal

variable {log log' : Log}

/-! ## Appends -/

/-- What an append may leave: more records, each at the next position. -/
structure Extends (log log' : Log) : Prop where
  grows : log.events <+: log'.events
  contiguous : Contiguous (·.globalPosition) log.events → Contiguous (·.globalPosition) log'.events

theorem Extends.refl (log : Log) : Extends log log := ⟨prefix_rfl, id⟩

theorem Extends.trans {middle : Log} (h : Extends log middle) (h' : Extends middle log') :
    Extends log log' :=
  ⟨h.grows.trans h'.grows, fun hlog => h'.contiguous (h.contiguous hlog)⟩

theorem contiguous_concat {events : List LogRecord} (h : Contiguous (·.globalPosition) events)
    {event : LogRecord} (hposition : event.globalPosition = events.length + 1) :
    Contiguous (·.globalPosition) (events ++ [event]) := by
  intro i other hget
  rw [getElem?_append] at hget
  split at hget
  · exact h i other hget
  · rename_i hout
    obtain ⟨hzero, rfl⟩ : i - events.length = 0 ∧ event = other := by
      cases hsub : i - events.length with
      | zero => simpa [hsub] using hget
      | succ n => simp [hsub] at hget
    dsimp only
    omega

theorem put_spec (ingestedAt : OffsetDateTime) (envelope : EventEnvelope) (log : Log) :
    match (Log.put ingestedAt envelope).run log with
    | .ok event log' => Extends log log' ∧ event ∈ log'.events
    | .error _ log' => log' = log := by
  cases hvalid : envelope.validate with
  | error error =>
    simp only [Log.put, hvalid, Except.mapError]
    simp [MonadExcept.ofExcept]
  | ok u =>
    simp only [Log.put, hvalid, Except.mapError]
    simp only [MonadExcept.ofExcept, EStateM.run_bind, EStateM.run_pure, EStateM.run_modify,
      EStateM.run_get, EStateM.run_set]
    refine ⟨⟨prefix_append _ _, fun h => contiguous_concat h rfl⟩, by simp⟩

/-- A batch: what was recorded is in the log, and what was refused leaves what came before it. -/
theorem putAll_spec (events : List EventEnvelope) (ingestedAt : OffsetDateTime) (log : Log) :
    match (events.mapM (Log.put ingestedAt)).run log with
    | .ok recorded log' => Extends log log' ∧ ∀ event ∈ recorded, event ∈ log'.events
    | .error _ log' => Extends log log' := by
  induction events generalizing log with
  | nil => exact ⟨.refl log, by simp⟩
  | cons envelope events ih =>
    have hput := put_spec ingestedAt envelope log
    rw [mapM_cons, EStateM.run_bind]
    cases hfirst : (Log.put ingestedAt envelope).run log with
    | error error log' =>
      rw [hfirst] at hput
      dsimp only at hput ⊢
      rw [hput]
      exact .refl log
    | ok event middle =>
      rw [hfirst] at hput
      obtain ⟨hgrows, hmem⟩ := hput
      have hrest := ih middle
      dsimp only
      rw [EStateM.run_bind]
      cases hlater : (events.mapM (Log.put ingestedAt)).run middle with
      | error error log' =>
        rw [hlater] at hrest
        exact hgrows.trans hrest
      | ok recorded log' =>
        rw [hlater] at hrest
        refine ⟨hgrows.trans hrest.1, ?_⟩
        rw [forall_mem_cons]
        exact ⟨hrest.1.grows.subset hmem, hrest.2⟩

theorem memory_act {append : Append} {batches : List (List LogRecord)}
    (h : memorySource.act log append = some (log', batches)) :
    Extends log log' ∧ ∀ batch ∈ batches, ∀ event ∈ batch, event ∈ log'.events := by
  have hspec := putAll_spec append.events append.ingestedAt log
  simp only [memorySource, Log.append, EStateM.run_bind] at h
  cases hrun : (append.events.mapM (Log.put append.ingestedAt)).run log with
  | error error left =>
    rw [hrun] at h hspec
    cases h
    exact ⟨hspec, by simp⟩
  | ok recorded left =>
    rw [hrun] at h hspec
    cases h
    exact ⟨hspec.1, by simpa [AppendResult.of] using hspec.2⟩

/-! ## Backlogs -/

/-- What is left of a backlog: with what was handed over, all that is wanted of the log as it was;
and nothing up to there that would still be dropped. -/
structure Backlog.Left (log : Log)
    (subscription : Subscription SubscribeOptions Backlog LogRecord) (backlog : Backlog) :
    Prop where
  events : subscription.events ++ backlog.events =
    (between log.events subscription.start backlog.head).filter
      (matchesStream subscription.options)
  head : backlog.head ≤ log.events.length
  next : subscription.next ≤ backlog.head
  after : subscription.start ≤ subscription.delivered
  bound : subscription.delivered ≤ max subscription.start backlog.head
  quiet : ∀ event ∈ log.events, subscription.delivered < event.globalPosition →
    event.globalPosition ≤ backlog.head → event ∉ backlog.events →
      matchesStream subscription.options event = false

namespace Backlog.Left

variable {subscription : Subscription SubscribeOptions Backlog LogRecord} {backlog : Backlog}

section

variable (h : Left log subscription backlog)

include h

theorem grows (hgrows : log.events <+: log'.events)
    (hcontiguous : Contiguous (·.globalPosition) log'.events) : Left log' subscription backlog := by
  obtain ⟨more, hmore⟩ := hgrows
  have hhead := h.head
  refine ⟨?_, ?_, h.next, h.after, h.bound, fun event hmem hlow hhigh hout => ?_⟩
  · rw [h.events, ← hmore, between_append h.head]
  · rw [← hmore, length_append]
    omega
  · have hget := getElem?_of_mem_contiguous hcontiguous hmem
      (Nat.sub_add_cancel (show 1 ≤ event.globalPosition by omega)).symm
    rw [← hmore, getElem?_append_left (by omega)] at hget
    exact h.quiet event (List.mem_of_getElem? hget) hlow hhigh hout

theorem hand (hcontiguous : Contiguous (·.globalPosition) log.events) {event : LogRecord}
    {events : List LogRecord} (hevents : backlog.events = event :: events) :
    Left log (subscription.replayed {
        handed := some (.event event)
        delivered := max subscription.delivered event.globalPosition
        replay := some { backlog with events } }) { backlog with events } := by
  have hbetween : event ∈ between log.events subscription.start backlog.head := by
    have hmem : event ∈ subscription.events ++ backlog.events := by simp [hevents]
    rw [h.events] at hmem
    exact mem_of_mem_filter hmem
  obtain ⟨i, hi⟩ := getElem?_of_mem (mem_of_mem_drop hbetween)
  have hposition : event.globalPosition ≤ backlog.head := by
    rw [getElem?_take] at hi
    split at hi
    · rename_i hlt
      have hget := hcontiguous i event hi
      dsimp only at hget
      omega
    · cases hi
  have hbound := h.bound
  have hafter := h.after
  refine ⟨?_, h.head, h.next, ?_, ?_, fun other hmem hlow hhigh hout => ?_⟩
  · have hall := h.events
    rw [hevents] at hall
    simpa [Subscription.replayed, Subscription.events, Handed.event?] using hall
  · simp only [Subscription.replayed]
    omega
  · simp only [Subscription.replayed]
    omega
  · simp only [Subscription.replayed] at hlow
    refine h.quiet other hmem (by omega) hhigh ?_
    rw [hevents, mem_cons, not_or]
    refine ⟨?_, hout⟩
    rintro rfl
    omega

theorem following (hempty : backlog.events = [])
    {onward : Onward Backlog LogRecord} (hhanded : onward.handed = some (.caughtUp
      (max backlog.head subscription.delivered)))
    (hdelivered : onward.delivered = subscription.delivered) :
    Following memorySource log (subscription.replayed onward) backlog.head := by
  have hmax : max backlog.head subscription.next = backlog.head := Nat.max_eq_left h.next
  refine ⟨?_, ?_, ?_, ?_, ?_⟩
  · have hall := h.events
    rw [hempty, append_nil] at hall
    simpa [Subscription.replayed, Subscription.events, hhanded, filterMap_cons, Handed.event?,
      hmax, memorySource] using hall
  · simpa [Subscription.replayed, hmax, memorySource] using h.head
  · simpa [Subscription.replayed, hdelivered] using h.after
  · simpa [Subscription.replayed, hdelivered, hmax] using h.bound
  · intro event hmem hlow hhigh
    simp only [Subscription.replayed, hdelivered, hmax] at hlow hhigh
    exact h.quiet event hmem hlow hhigh (by simp [hempty])

end

end Backlog.Left

/-- **In memory**: whatever is appended. -/
def memoryInvariant : memorySource.Invariant fun _ _ => True where
  Inv log := Contiguous (·.globalPosition) log.events
  committed log := log.events.length
  Replays := Backlog.Left
  contiguous h := h
  committed_le _ := Nat.le_refl _
  act := by
    intro log append log' batches hlog _ hact
    obtain ⟨hextends, hbatches⟩ := memory_act hact
    refine ⟨hextends.contiguous hlog, hextends.grows, hextends.grows.length_le,
      fun batch hbatch event hevent => ?_⟩
    have hmem := hbatches batch hbatch event hevent
    obtain ⟨i, hi⟩ := List.getElem?_of_mem hmem
    have hlt := (List.getElem?_eq_some_iff.mp hi).1
    have hposition := hextends.contiguous hlog i event hi
    refine ⟨hmem, ?_⟩
    dsimp only [memorySource] at hposition ⊢
    omega
  opens := by
    intro log subscription start replay hlog hnone hnext hopens
    simp only [memorySource, Option.some.injEq, Prod.mk.injEq] at hopens
    obtain ⟨rfl, rfl⟩ := hopens
    refine ⟨?_, Nat.le_refl _, hnext, Nat.le_refl _, Nat.le_max_left _ _,
      fun event hmem hlow _ hout => ?_⟩
    · dsimp only [Subscription.events] at hnone ⊢
      rw [hnone, List.nil_append, between_of_length_le (Nat.le_refl _), List.filter_filter]
      have hdue := due_eq_filter hlog (matchesStream subscription.options)
        (startOf subscription.options log.events.length)
      rw [← hdue]
      exact List.filter_congr fun event _ => Bool.and_comm _ _
    · by_contra hmatches
      dsimp only at hlow hout hmatches
      refine hout (List.mem_filter.mpr ⟨List.mem_filter.mpr ⟨hmem, by simpa using hlow⟩, ?_⟩)
      simpa using hmatches
  grows := by
    intro log log' append batches subscription replay hlog _ hact h
    obtain ⟨hextends, -⟩ := memory_act hact
    exact h.grows hextends.grows (hextends.contiguous hlog)
  goes := by
    intro log subscription backlog onward hlog h _ hreplay
    simp only [memorySource] at hreplay
    split at hreplay
    · rename_i event events hevents
      cases hreplay
      refine ⟨?_, by simp⟩
      rintro rest ⟨⟩
      exact h.hand hlog hevents
    · rename_i hempty
      cases hreplay
      exact ⟨by simp, fun _ => ⟨backlog.head, h.following hempty rfl rfl⟩⟩
  first := by
    intro log subscription backlog hlog h
    have hall : subscription.events <+:
        (between log.events subscription.start backlog.head).filter
          (matchesStream subscription.options) := ⟨backlog.events, h.events⟩
    rw [due_eq hlog]
    exact hall.trans ((between_prefix_drop _ _ _).filter _)

end Aiwatcher.Bus
