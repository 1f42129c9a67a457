import Aiwatcher.Periods.Journal
import Aiwatcher.Trace.Attributes

/-!
# Aiwatcher.Asked.Index

What clients said about the runs they opened to answer a measurement (`measured.rs`), how it is
written down and how it is read back: `fromKept_kept` says that nothing is lost between.

The bits of the run numbers that arrived are the keys of a table.

The index of what witnesses saw asked (`asked.rs`): calls in memory, written to pages filed under
the hour of their first call, a reach saved beside them, and the read over both.

Hours are whole numbers of hours.  Whether a flush is due, what the store answers, what time it
is and the cutoff of retention are arguments; pages and reaches are typed documents.
-/

namespace Aiwatcher.Asked

open Library

/-! ## Counts -/

/-- Measurements whose counts are kept. -/
def mostMeasurements : Nat := 1024

/-- Clients and attempts kept for one measurement. -/
def mostCounts : Nat := 256

/-- Run numbers one count tracks. -/
def mostNumbers : Nat := 1048576

/-- What clients counted of one measurement, in one project: `Measured` in the source. -/
structure MeasuredKey where
  scope : String
  evaluationId : String
  deriving DecidableEq, Repr

/-- Whose count it is, and for which attempt. -/
structure CountKey where
  client : String
  attempt : Option Nat
  deriving DecidableEq, Repr

namespace MeasuredKey

instance : Ord MeasuredKey where
  compare := compareLex (compareOn scope) (compareOn evaluationId)

instance : Std.TransOrd MeasuredKey :=
  inferInstanceAs (Std.TransCmp (compareLex (compareOn scope) (compareOn evaluationId)))

instance : Std.LawfulEqOrd MeasuredKey :=
  Library.Table.lawfulEq_compareLex fun a b => by
    cases a
    cases b
    simp_all

end MeasuredKey

namespace CountKey

instance : Ord CountKey where
  compare := compareLex (compareOn client) (compareOn attempt)

instance : Std.TransOrd CountKey :=
  inferInstanceAs (Std.TransCmp (compareLex (compareOn client) (compareOn attempt)))

instance : Std.LawfulEqOrd CountKey :=
  Library.Table.lawfulEq_compareLex fun a b => by
    cases a
    cases b
    simp_all

end CountKey

structure Count where
  /-- The run numbers whose start arrived. -/
  seen : BTreeMap Nat Unit := ∅
  arrived : Nat := 0
  highest : Option Nat := none
  counted : Option Nat := none
  /-- A number past what is tracked arrived. -/
  overflowed : Bool := false

structure Measurement where
  heard : Nat := 0
  project : Option Store.ProjectScope := none
  counts : BTreeMap CountKey Count := ∅

/-- Every measurement's counts, as the log was read. -/
structure MeasuredState where
  measurements : BTreeMap MeasuredKey Measurement := ∅
  /-- Which measurement was heard from last. -/
  heard : Nat := 0

namespace Count

def started (count : Count) (number : Nat) : Count :=
  if mostNumbers ≤ number then { count with overflowed := true }
  else
    { count with
      seen := count.seen.insert number ()
      arrived := if count.seen.contains number then count.arrived else count.arrived + 1
      highest := some ((count.highest.map (max · number)).getD number) }

def counts (count : Count) (runs : Nat) : Count :=
  { count with counted := some ((count.counted.map (max · runs)).getD runs) }

end Count

/-! ## Reading -/

/-- What an event says of a measured run: the number of a start, or a client's count. -/
def measures (event : RecordedEvent) : Option (Count → Count) :=
  match event.eventType with
  | .runStarted => event.metadata.runSequence.map fun number count => count.started number.toNat
  | .clientCounted =>
    ((event.data.get "runs").bind Value.asU64).map fun runs count => count.counts runs.toNat
  | _ => none

/-- The attempt a run was opened for. -/
def attemptOf (event : RecordedEvent) : Option Nat :=
  (((event.data.get "generation_attempt").bind Value.asU64).map UInt64.toNat).filter
    fun attempt => attempt < 4294967296

/-- The first row that was heard from longest ago. -/
def earlier (best : Option (MeasuredKey × Measurement)) (row : MeasuredKey × Measurement) :
    Option (MeasuredKey × Measurement) :=
  match best with
  | none => some row
  | some known => if row.2.heard < known.2.heard then some row else some known

/-- The measurement heard from longest ago. -/
def oldest (measurements : BTreeMap MeasuredKey Measurement) : Option MeasuredKey :=
  (measurements.toList.foldl earlier none).map Prod.fst

namespace MeasuredState

/-- Make room for a measurement that is not kept yet. -/
def room (state : MeasuredState) (key : MeasuredKey) : BTreeMap MeasuredKey Measurement :=
  if !state.measurements.contains key && mostMeasurements ≤ state.measurements.size then
    (oldest state.measurements).elim state.measurements state.measurements.erase
  else state.measurements

/-- Read a count's change into a measurement. -/
def counted (measurement : Measurement) (key : CountKey) (change : Count → Count) : Measurement :=
  if !measurement.counts.contains key && mostCounts ≤ measurement.counts.size then measurement
  else { measurement with counts := Table.entry measurement.counts key {} change }

/-- Read a measured run's start, or a client's count of such runs. -/
def apply (state : MeasuredState) (event : RecordedEvent) : MeasuredState :=
  match event.dataStr "evaluation_id", event.metadata.source.client, measures event with
  | some evaluationId, some client, some change =>
    let key : MeasuredKey := ⟨Periods.keyOf event.metadata.project, evaluationId⟩
    let heard := state.heard + 1
    ⟨Table.entry (state.room key) key {} fun measurement =>
      counted { measurement with project := event.metadata.project, heard }
        ⟨client, attemptOf event⟩ change, heard⟩
  | _, _, _ => state

end MeasuredState

/-! ## Keeping -/

/-- One count as it is kept: the numbers whose start arrived, as stretches. -/
structure KeptCount where
  client : String
  attempt : Option Nat
  arrived : List (Nat × Nat)
  counted : Option Nat
  overflowed : Bool
  deriving DecidableEq, Repr

/-- One measurement's counts as they are kept. -/
structure KeptMeasurement where
  evaluationId : String
  project : Option Store.ProjectScope
  heard : Nat
  counts : List KeptCount
  deriving DecidableEq, Repr

def keptCount (row : CountKey × Count) : KeptCount :=
  ⟨row.1.client, row.1.attempt, stretches row.2.seen.keys, row.2.counted, row.2.overflowed⟩

def keptMeasurement (row : MeasuredKey × Measurement) : KeptMeasurement :=
  ⟨row.1.evaluationId, row.2.project, row.2.heard, row.2.counts.toList.map keptCount⟩

/-- Every count, to be written down. -/
def MeasuredState.kept (state : MeasuredState) : List KeptMeasurement :=
  state.measurements.toList.map keptMeasurement

/-- One stretch that was written down, read back. -/
def restoreStretch (count : Count) (stretch : Nat × Nat) : Count :=
  if stretch.2 < stretch.1 || mostNumbers ≤ stretch.2 then { count with overflowed := true }
  else (expand stretch).foldl Count.started count

def restoreCount (kept : KeptCount) : CountKey × Count :=
  (⟨kept.client, kept.attempt⟩, kept.arrived.foldl restoreStretch
    { counted := kept.counted, overflowed := kept.overflowed })

def restoreMeasurement (kept : KeptMeasurement) : MeasuredKey × Measurement :=
  (⟨Periods.keyOf kept.project, kept.evaluationId⟩,
    ⟨kept.heard, kept.project, ((kept.counts.take mostCounts).map restoreCount).foldl
      (fun counts row => counts.insert row.1 row.2) ∅⟩)

/-- The counts written down, within this fold's bounds: the ones heard from last are kept. -/
def MeasuredState.fromKept (kept : List KeptMeasurement) : MeasuredState :=
  let latest := (kept.insertionSort fun a b => b.heard ≤ a.heard).take mostMeasurements
  ⟨(latest.map restoreMeasurement).foldl (fun rows row => rows.insert row.1 row.2) ∅,
    latest.foldl (fun heard measurement => max heard measurement.heard) 0⟩

open Periods

/-! ## Calls -/

def mostPending : Nat := 5000

/-- Runs whose caller is remembered until they end. -/
def mostCallers : Nat := 50000

/-- Reaches kept per processor. -/
def reachesKept : Nat := 3

def hourMs : Int := 3600000

/-- The hour a moment lies in. -/
def hourOf (atMs : Int) : Int := atMs / hourMs

/-- One model call a witness relayed and said what it asked in. -/
structure AskedCall where
  /-- The log position of the event that ended it. -/
  position : Nat
  atMs : Int
  runId : String
  callerRunId : Option String
  publishedBy : Option String
  project : Option Store.ProjectScope
  model : Option String
  promptName : Option String
  promptVersion : Option String
  promptVerified : Option Bool
  asked : List String
  askedNormalized : List String
  deriving DecidableEq, Repr

/-- The calls asked from a moment on, and how far back the index reads. -/
structure AskedSince where
  calls : List AskedCall
  reachesFromMs : Option Int
  deriving DecidableEq, Repr

/-- A page, filed under the hour of its first call. -/
structure Page where
  hour : Int
  first : Nat
  last : Nat
  calls : List AskedCall
  deriving DecidableEq, Repr

def Page.sameKey (page other : Page) : Bool :=
  page.hour == other.hour && page.first == other.first && page.last == other.last

/-- Where the index has written through, and how far back it reads. -/
structure Reach where
  through : Option Nat := none
  /-- Whether it has read any event at all. -/
  began : Bool := false
  readsFromMs : Option Int := none
  measured : List KeptMeasurement := []
  deriving DecidableEq, Repr

/-! ## State -/

/-- The index in memory: `State` in the source. -/
structure Index where
  reach : Reach := {}
  /-- Positions applied and not yet written, and the calls among them. -/
  appliedThrough : Option Nat := none
  pending : List AskedCall := []
  callers : BTreeMap String String := ∅
  callerOrder : List String := []
  contiguous : Bool := false
  measured : MeasuredState := {}

/-- What the object store holds of the index. -/
structure Disk where
  pages : List Page := []
  reaches : BTreeMap Nat Reach := ∅

namespace Index

/-! ## Applying -/

/-- The later of two moments a reach may say. -/
def raised (from' : Option Int) (atMs : Int) : Option Int := some ((from'.map (max · atMs)).getD atMs)

/-- Where the index reads back to once an event is read: to the log's first event where that is
the first it reads, and to the event after a stretch nobody read. -/
def reached (index : Index) (position : Nat) (atMs : Int) : Reach :=
  let passedOver := index.appliedThrough.any fun through =>
    index.contiguous && through + 1 < position
  if !index.reach.began || passedOver then
    let fromTheFirst := !index.reach.began && index.contiguous && position == 1
    { index.reach with
      began := true
      readsFromMs := if fromTheFirst then index.reach.readsFromMs
        else raised index.reach.readsFromMs atMs }
  else index.reach

/-- Remember which run a serving run serves. -/
def remember (index : Index) (event : RecordedEvent) : Index :=
  match event.eventType, event.dataStr "caller_run_id" with
  | .runStarted, some caller =>
    let index := if mostCallers ≤ index.callerOrder.length then
        { index with
          callers := (index.callerOrder.head?).elim index.callers index.callers.erase
          callerOrder := index.callerOrder.tail }
      else index
    { index with
      callers := index.callers.insert event.metadata.runId caller
      callerOrder := index.callerOrder ++ [event.metadata.runId] }
  | _, _ => index

/-- The call an event ends, where its witness said what it asked in. -/
def callOf (index : Index) (event : RecordedEvent) : Option AskedCall :=
  match event.eventType.subject, event.eventType.phase with
  | .llm, some (.ended _) =>
    let asked := Trace.digestsOf event "asked_digests" Trace.isDigest
    let askedNormalized := Trace.digestsOf event "asked_normalized_digests" Trace.isDigest
    let version := (event.dataStr "prompt_version").filter Trace.isPromptVersion
    if asked.isEmpty && askedNormalized.isEmpty then none
    else some
      { position := positionOf event
        atMs := millis event.metadata.occurredAt
        runId := event.metadata.runId
        callerRunId := index.callers[event.metadata.runId]?
        publishedBy := event.metadata.publishedBy
        project := event.metadata.project
        model := event.dataStr "model"
        promptName := version.bind fun _ =>
          (event.dataStr "prompt_name").filter Trace.isPromptName
        promptVersion := version
        promptVerified := event.dataBool "prompt_verified"
        asked
        askedNormalized }
  | _, _ => none

/-- Forget the caller of a run that ends. -/
def forget (index : Index) (event : RecordedEvent) : Index :=
  match event.eventType.subject, event.eventType.phase with
  | .run, some (.ended _) =>
    if index.callers.contains event.metadata.runId then
      { index with
        callers := index.callers.erase event.metadata.runId
        callerOrder := index.callerOrder.filter fun held => held ≠ event.metadata.runId }
    else index
  | _, _ => index

/-- Whether an event is behind what the index has applied. -/
def passed (index : Index) (event : RecordedEvent) : Bool :=
  index.appliedThrough.any fun through => positionOf event ≤ through

/-- What the index knows when it looks for the call of an event. -/
def noted (index : Index) (event : RecordedEvent) : Index :=
  { index with
    reach := index.reached (positionOf event) (millis event.metadata.occurredAt)
    appliedThrough := some (positionOf event)
    measured := index.measured.apply event }.remember event

/-- The call an event adds to what is pending. -/
def adds (index : Index) (event : RecordedEvent) : Option AskedCall :=
  if index.passed event then none else (index.noted event).callOf event

/-- Read one event. -/
def apply (index : Index) (event : RecordedEvent) : Index :=
  if index.passed event then index
  else
    let noted := index.noted event
    { noted with pending := noted.pending ++ (noted.callOf event).toList }.forget event

/-! ## Flushing -/

/-- What a flush takes with it: a page where any calls wait, and the reach to save. -/
structure Flush where
  page : Option Page
  reach : Reach
  deriving DecidableEq, Repr

/-- The reach a flush saves. -/
def reachThrough (index : Index) (through : Nat) : Reach :=
  { index.reach with through := some through, measured := index.measured.kept }

/-- The page of some calls. -/
def pageOf (calls : List AskedCall) (through : Nat) : Option Page :=
  calls.head?.map fun call => ⟨hourOf call.atMs, call.position, through, calls⟩

/-- What a flush takes when it is due (or `force`d), and the index without it. -/
def take (index : Index) (due : Bool) : Option (Flush × Index) :=
  index.appliedThrough.bind fun through =>
    if index.pending.isEmpty then
      if due && index.reach.through != some through then
        some (⟨none, index.reachThrough through⟩, index)
      else none
    else if due || mostPending ≤ index.pending.length then
      some (⟨pageOf index.pending through, index.reachThrough through⟩,
        { index with pending := [] })
    else none

/-- The calls of a page that was not written wait again. -/
def putBack (index : Index) (page : Page) : Index :=
  { index with pending := page.calls ++ index.pending }

/-- The index after a flush that was written. -/
def flushed (index : Index) (flush : Flush) : Index :=
  { index with reach := { index.reach with through := flush.reach.through } }

/-- Where retention leaves the index reading back to. -/
def prunedTo (index : Index) (cutoffMs : Int) : Index :=
  if index.reach.began then
    { index with reach := { index.reach with
      readsFromMs := raised index.reach.readsFromMs (hourOf cutoffMs * hourMs) } }
  else index

end Index

namespace Disk

/-- A page is created once. -/
def create (disk : Disk) (page : Page) : Disk :=
  if disk.pages.any page.sameKey then disk else { disk with pages := disk.pages ++ [page] }

/-- A reach is created once, and the ones before the last few are removed. -/
def save (disk : Disk) (through : Nat) (reach : Reach) : Disk :=
  let saved := if disk.reaches.contains through then disk.reaches
    else disk.reaches.insert through reach
  let old := ((saved.keys.filter (· ≤ through)).reverse).drop reachesKept
  { disk with reaches := Table.dropAll saved old }

/-- The pages of hours past a cutoff, as many as are deleted before a deletion fails. -/
def expired (disk : Disk) (cutoffMs : Int) (deletes : Option Nat) : List Page :=
  let old := disk.pages.filter fun page => page.hour < hourOf cutoffMs
  deletes.elim old old.take

def without (disk : Disk) (pages : List Page) : Disk :=
  { disk with pages := disk.pages.filter fun page => !pages.contains page }

/-- The reach saved furthest along. -/
def furthest (disk : Disk) : Option Reach := disk.reaches.toList.getLast?.map Prod.snd

/-! ## Reading -/

/-- The hours a read looks into. -/
def hours (startMs nowMs : Int) : List Int :=
  (List.range (hourOf nowMs + 2 - hourOf startMs).toNat).map fun n : Nat =>
    hourOf startMs - 1 + n

end Disk

/-- A call is read at its position, the first one found there. -/
def collect (found : BTreeMap Nat AskedCall) (call : AskedCall) : BTreeMap Nat AskedCall :=
  if found.contains call.position then found else found.insert call.position call

/-- What a read takes of the index before it looks into the store. -/
structure Ask where
  project : Option Store.ProjectScope
  fromMs : Int
  pending : List AskedCall
  reachesFromMs : Option Int
  deriving DecidableEq, Repr

namespace Ask

def startMs (ask : Ask) : Int := (ask.reachesFromMs.map (max ask.fromMs)).getD ask.fromMs

/-- Whether a call is one that is asked for. -/
def wants (ask : Ask) (call : AskedCall) : Bool :=
  ask.fromMs ≤ call.atMs && call.project = ask.project

/-- The calls a read meets, in the store and then in memory. -/
def meets (ask : Ask) (disk : Disk) (nowMs : Int) : List AskedCall :=
  ((Disk.hours ask.startMs nowMs).flatMap fun hour =>
    (disk.pages.filter fun page => page.hour = hour).flatMap Page.calls) ++ ask.pending

/-- What a read answers. -/
def answer (ask : Ask) (disk : Disk) (nowMs : Int) : AskedSince :=
  ⟨BTreeMap.values (((ask.meets disk nowMs).filter ask.wants).foldl collect ∅), ask.reachesFromMs⟩

end Ask

/-- What a read takes of the index. -/
def Index.ask (index : Index) (project : Option Store.ProjectScope) (fromMs : Int) : Ask :=
  ⟨project, fromMs, index.pending, index.reach.readsFromMs⟩

/-! ## Loading -/

/-- An index loaded from what is stored, for a log that numbers its events so. -/
def load (disk : Disk) (contiguous : Bool) : Index :=
  match disk.furthest with
  | some reach =>
    { reach := { reach with measured := [] }
      appliedThrough := reach.through
      measured := .fromKept reach.measured
      contiguous }
  | none => { contiguous }

end Aiwatcher.Asked
