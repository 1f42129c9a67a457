import Aiwatcher.Periods.Observations

/-!
# Aiwatcher.Periods.Fold

The period fold (`period_fold.rs`): runs in flight, the periods still open, the hours and days
they add up to, and the periods that are closed and not yet written.

Positions and clients' counts are natural numbers, times integers: seconds, or milliseconds
where the name says so.  The width every state begins with, kept under `i64::MIN` in the source,
is `Widths.always`.
-/

namespace Aiwatcher.Periods

open Library

/-- Runs in flight past this are not tracked. -/
def mostInFlight : Nat := 50000

/-- Call durations a run keeps. -/
def mostCallsTimed : Nat := 1000

/-- Clients a run keeps a count for. -/
def mostClientsNumbered : Nat := 64

/-- Clients' counts of the runs they opened the fold keeps. -/
def mostRunCounts : Nat := 10000

/-- How far a client's clock may run ahead of the log's. -/
def clientClockSkew : Int := 60

def hour : Int := 3600

def day : Int := 86400

/-! ## Widths -/

/-- The width of periods from each moment on, the latest change first. -/
structure Widths where
  always : Int
  changes : List (Int × Int)
  deriving DecidableEq, Repr

namespace Widths

/-- The width in force at a moment. -/
def widthAt (widths : Widths) (at' : Int) : Int :=
  ((widths.changes.find? fun change => change.1 ≤ at').map Prod.snd).getD widths.always

/-- The width last configured. -/
def widthNow (widths : Widths) : Int :=
  (widths.changes.head?.map Prod.snd).getD widths.always

def changed (widths : Widths) (switch width : Int) : Widths :=
  { widths with
    changes := (switch, width) :: widths.changes.filter fun change => change.1 < switch }

end Widths

/-! ## State -/

/-- A model call a tracked run has open. -/
structure OpenCall where
  startedMs : Int
  firstTokenMs : Option Int := none
  model : Option String := none
  deriving DecidableEq, Repr

/-- A run naming a variant, while it is in flight. -/
structure InFlight where
  variantId : String
  project : Option Store.ProjectScope
  measured : Bool := false
  sawStart : Bool := false
  startedMs : Int
  lastMs : Int := 0
  llmCalls : Nat := 0
  inputTokens : Int := 0
  outputTokens : Int := 0
  models : List ModelUsage := []
  modelsByDay : BTreeMap String (List ModelUsage) := ∅
  callMs : List Int := []
  ttftMs : List Int := []
  calls : BTreeMap String OpenCall := ∅
  numbered : BTreeMap String Nat := ∅
  lost : Nat := 0

/-- How far one client's count of the runs it opened naming one variant has reached. -/
structure RunCount where
  highest : Nat
  heard : Int
  deriving DecidableEq, Repr

/-- One closed period's records, waiting to be written. -/
structure ClosedPeriod where
  /-- How wide it is: a period's own width, an hour or a day. -/
  level : Int
  start : Int
  records : List ObservedPeriod
  through : Option Nat

/-- Positions a fold expected and the log no longer held. -/
structure LogGap where
  firstPosition : Nat
  lastPosition : Nat
  start : Int
  until' : Int
  deriving DecidableEq, Repr

/-- What a journal kept of the positions from `first` to `last`. -/
structure JournalPage where
  first : Nat
  last : Nat
  /-- The log's clock at the first position. -/
  start : Int
  clock : Int
  events : List RecordedEvent

/-- The periods of one start, by project and variant. -/
abbrev Variants := BTreeMap String ObservedPeriod

structure PeriodFold where
  widths : Widths
  /-- The position of the last event folded. -/
  through : Option Nat := none
  /-- The log's clock. -/
  clock : Option Int := none
  /-- The start of the first period this fold covers. -/
  began : Option Int := none
  /-- The end of the last period closed. -/
  closedThrough : Option Int := none
  gapFrom : Option Int := none
  runs : BTreeMap String InFlight := ∅
  runCounts : BTreeMap String RunCount := ∅
  firstRead : Option Int := none
  forgotten : Option Int := none
  /-- Periods still open, by their start: `open` in the source. -/
  openPeriods : BTreeMap Int Variants := ∅
  /-- Hours and days still open, by level and then start. -/
  rollups : BTreeMap Int (BTreeMap Int Variants) := ∅
  /-- Closed and not yet written. -/
  closed : List ClosedPeriod := []
  /-- Positions the log no longer held, not yet written down. -/
  missed : List LogGap := []
  /-- The spans of time those positions may have lain in. -/
  missedSpans : List (Int × Int) := []
  /-- Whether the log numbers every event one after the last. -/
  contiguous : Bool := false

/-- `OffsetDateTime::unix_timestamp`. -/
def unixTimestamp (at' : OffsetDateTime) : Int := at' / 1000000000

def millis (at' : OffsetDateTime) : Int := at'.tdiv 1000000

/-- `ProjectScope::key_of`. -/
def keyOf : Option Store.ProjectScope → String
  | some project => s!"{project.organization}/{project.project}"
  | none => ""

/-- What a period holds one variant's record under. -/
def keyed (project : Option Store.ProjectScope) (variantId : String) : String :=
  s!"{keyOf project}|{variantId}"

namespace PeriodFold

/-- A fold of periods `width` seconds wide. -/
def new (width : Int) : PeriodFold where
  widths := ⟨max width 1, []⟩

def widthAt (fold : PeriodFold) (at' : Int) : Int := fold.widths.widthAt at'

def graceAt (fold : PeriodFold) (at' : Int) : Int := min (max (fold.widthAt at' / 10) 1) 300

/-- The start of the period a moment falls in. -/
def floorAt (fold : PeriodFold) (at' : Int) : Int := floorOf fold.widthAt at'

/-- The widths above a period's own at a moment, narrowest first. -/
def rollupLevels (fold : PeriodFold) (at' : Int) : List Int :=
  if hour % fold.widthAt at' = 0 then [hour, day].filter fun level => fold.widthAt at' < level
  else []

def levelsAt (fold : PeriodFold) (at' : Int) : List Int :=
  fold.widthAt at' :: fold.rollupLevels at'

/-- Where a width configured now takes over: the next hour the fold has not closed or opened a
period in. -/
def switchAfter (fold : PeriodFold) (began : Int) : Int :=
  let reached := (fold.openPeriods.keys.map (fun start => start + fold.widthAt start) ++
    fold.closedThrough.toList ++ fold.clock.toList).foldl max began
  (reached + hour - 1) / hour * hour

def changeWidth (fold : PeriodFold) (width : Int) : PeriodFold :=
  if width = fold.widths.widthNow then fold
  else
    match fold.began with
    | none => { fold with widths := ⟨width, []⟩ }
    | some began => { fold with widths := fold.widths.changed (fold.switchAfter began) width }

/-! ## Gaps -/

/-- A period that says it is incomplete. -/
def doubted (record : ObservedPeriod) : ObservedPeriod :=
  { record with figures := { record.figures with complete := false } }

/-- The log gave `position` after `through`, and holds nothing between. -/
def missedBefore (fold : PeriodFold) (through position : Nat) (bound : Int) : PeriodFold :=
  let start := min ((fold.clock.or (fold.closedThrough.or fold.began)).getD bound) bound
  { fold with
    missed := fold.missed ++ [⟨through + 1, position - 1, start, bound⟩]
    missedSpans := fold.missedSpans ++ [(start, bound)]
    openPeriods := fold.openPeriods.map fun at' variants =>
      if at' ≤ bound ∧ start < at' + fold.widthAt at' then variants.map fun _ => doubted
      else variants
    rollups := fold.rollups.map fun level starts => starts.map fun at' variants =>
      if at' ≤ bound ∧ start < at' + level then variants.map fun _ => doubted
      else variants }

/-- Whether a period `[start, stop)` reaches a span the log no longer held. -/
def reachesMissed (fold : PeriodFold) (start stop : Int) : Bool :=
  fold.missedSpans.any fun span => span.1 < stop && start ≤ span.2

/-! ## Counting -/

end PeriodFold

/-- Count a run in a record: late, by the period it ended in, or in its figures; and in its
second. -/
def ObservedPeriod.counted (record : ObservedPeriod) (endedIn endedWidth openFrom offset : Int)
    (run : Figures) : ObservedPeriod :=
  if endedIn < openFrom then
    { record with
      figures := { record.figures with lateRuns := record.figures.lateRuns + run.runs }
      late := Table.entry record.late endedIn
        (LateRuns.empty endedIn (endedIn + endedWidth)) fun late =>
          { late with
            figures := late.figures.merge run
            slices := sliced late.slices endedIn offset run } }
  else
    { record with
      figures := record.figures.merge run
      slices := sliced record.slices endedIn offset run }

namespace PeriodFold

/-- The period a run is counted in, from the one it ended in. -/
def openFrom (fold : PeriodFold) (endedIn : Int) : Int :=
  max (max endedIn (fold.closedThrough.getD endedIn)) (fold.began.getD endedIn)

/-- Count one run's figures in the period it ended in and in its second, held in the oldest open
period when that one has closed. -/
def place (fold : PeriodFold) (project : Option Store.ProjectScope) (variantId : String)
    (endSeconds : Int) (run : Figures) : PeriodFold :=
  let endedIn := fold.floorAt endSeconds
  let openFrom := fold.openFrom endedIn
  let endedWidth := fold.widthAt endedIn
  let openWidth := fold.widthAt openFrom
  let offset := endSeconds - endedIn
  let missed := fold.reachesMissed endedIn (endedIn + endedWidth) ||
    fold.reachesMissed openFrom (openFrom + openWidth)
  let doubt := missed || fold.gapFrom.any fun gap => gap = endedIn || gap = openFrom
  { fold with
    openPeriods := Table.entry fold.openPeriods openFrom ∅ fun variants =>
      Table.entry variants (keyed project variantId)
        (empty project variantId openFrom (openFrom + openWidth)) fun record =>
          (if doubt then doubted record else record).counted endedIn endedWidth openFrom offset
            run }

/-- What a run that was in flight counts for. -/
def figuresOf (measures : Measures) (run : InFlight) (ok : Bool) (at' endSeconds : Int) :
    Figures :=
  if run.measured then { measuredRuns := 1, complete := true }
  else
    { runs := 1
      succeeded := ok.toNat
      failed := (!ok).toNat
      runMs := if run.sawStart then
          DurationHistogram.add measures {} (max (at' - run.startedMs) 0)
        else {}
      callMs := run.callMs.foldl (DurationHistogram.add measures) {}
      timeToFirstTokenMs := run.ttftMs.foldl (DurationHistogram.add measures) {}
      llmCalls := run.llmCalls
      inputTokens := run.inputTokens
      outputTokens := run.outputTokens
      models := run.models
      modelsByDay := run.modelsByDay
      firstSeenAt := some (run.startedMs / 1000)
      lastSeenAt := some endSeconds
      lostEvents := run.lost
      complete := run.sawStart && run.lost == 0 }

def finish (measures : Measures) (fold : PeriodFold) (run : InFlight) (ok : Bool)
    (at' endSeconds : Int) : PeriodFold :=
  fold.place run.project run.variantId endSeconds (figuresOf measures run ok at' endSeconds)

/-- What a run whose start the fold never tracked counts for. -/
def figuresUnseen (ok : Bool) (endSeconds : Int) : Figures where
  runs := 1
  succeeded := ok.toNat
  failed := (!ok).toNat
  lastSeenAt := some endSeconds
  complete := false

def finishUnseen (fold : PeriodFold) (project : Option Store.ProjectScope) (variantId : String)
    (ok : Bool) (endSeconds : Int) : PeriodFold :=
  fold.place project variantId endSeconds (figuresUnseen ok endSeconds)

/-! ## Clients' counts -/

/-- Read an event's place in its client's count. -/
def numbered (run : InFlight) (event : RecordedEvent) (starts : Bool) : InFlight :=
  match event.metadata.sequence, event.metadata.source.client with
  | some sequence, some client =>
    let sequence := sequence.toNat
    match run.numbered[client]? with
    | some highest =>
      { run with
        lost := run.lost + (sequence - (highest + 1))
        numbered := run.numbered.insert client (max highest sequence) }
    | none =>
      if run.numbered.size < mostClientsNumbered then
        { run with
          lost := if run.sawStart || starts then run.lost + sequence else run.lost
          numbered := run.numbered.insert client sequence }
      else run
  | _, _ => run

/-- The count heard from longest ago. -/
def oldest (counts : BTreeMap String RunCount) : Option (String × RunCount) :=
  counts.toList.foldl (fun best count =>
    match best with
    | none => some count
    | some known => if count.2.heard < known.2.heard then some count else some known) none

/-- Make room for one more count. -/
def forgetOldest (fold : PeriodFold) : PeriodFold :=
  if mostRunCounts ≤ fold.runCounts.size then
    match oldest fold.runCounts with
    | some (key, count) =>
      { fold with
        runCounts := fold.runCounts.erase key
        forgotten := some ((fold.forgotten.map (max · count.heard)).getD count.heard) }
    | none => fold
  else fold

/-- Whether the fold read a client's count from its start. -/
def readFromItsStart (fold : PeriodFold) (event : RecordedEvent) : Bool :=
  (event.metadata.runCountedFrom.map unixTimestamp).any fun began =>
    (fold.firstRead.any fun first => first + clientClockSkew ≤ began) &&
      fold.forgotten.all fun forgotten => forgotten + clientClockSkew < began

/-- Read a run's start, or a client's count of its runs (`counted`), in that count. -/
def runsNumbered (fold : PeriodFold) (event : RecordedEvent) (number : Nat) (counted : Bool) :
    PeriodFold :=
  match event.metadata.source.client, event.metadata.variantId with
  | some client, some variantId =>
    if (event.dataStr "evaluation_id").isSome || (counted && number == 0) then fold
    else
      let reached := if counted then number - 1 else number
      let heard := unixTimestamp (min event.metadata.occurredAt event.metadata.ingestedAt)
      let key := s!"{keyOf event.metadata.project} {client} {variantId}"
      let (fold, passed) :=
        match fold.runCounts[key]? with
        | some count =>
          let moved : RunCount := ⟨max count.highest reached, max count.heard heard⟩
          ({ fold with runCounts := fold.runCounts.insert key moved },
            number - (count.highest + 1))
        | none =>
          let fold := fold.forgetOldest
          ({ fold with runCounts := fold.runCounts.insert key ⟨reached, heard⟩ },
            if fold.readFromItsStart event then number else 0)
      if 0 < passed then
        fold.place event.metadata.project variantId
          (unixTimestamp event.metadata.occurredAt) { lostRuns := passed, complete := false }
      else fold
  | _, _ => fold

/-! ## One event -/

/-- What an ended model call adds to its run. -/
def callEnded (measures : Measures) (run : InFlight) (event : RecordedEvent) (at' : Int)
    (ok : Bool) : InFlight :=
  let open' := run.calls[event.metadata.spanKey]?
  let started := (open'.map OpenCall.startedMs).getD at'
  let took := (((event.dataF64 measures.floats "duration_ms").filter fun ms =>
    isFinite ms && isNonNegative ms).map measures.truncate).getD (at' - started)
  let timed := decide (run.callMs.length < mostCallsTimed)
  let read := fun key => event.dataI64 measures.floats key
  let input := if ok then
    (((read "prompt_tokens").or (read "input_tokens")).map Int64.toInt).getD 0 else 0
  let output := if ok then
    (((read "completion_tokens").or (read "output_tokens")).map Int64.toInt).getD 0 else 0
  let cached := if ok then ((read "cached_tokens").map Int64.toInt).getD 0 else 0
  let usage : ModelUsage :=
    ⟨((event.dataStr "model").or (open'.bind OpenCall.model)).getD "unknown", 1, input, output,
      cached⟩
  { run with
    calls := run.calls.erase event.metadata.spanKey
    callMs := if timed then run.callMs ++ [max took 0] else run.callMs
    ttftMs := if timed then
        run.ttftMs ++ ((open'.bind OpenCall.firstTokenMs).map fun first =>
          max (first - started) 0).toList
      else run.ttftMs
    inputTokens := run.inputTokens + input
    outputTokens := run.outputTokens + output
    modelsByDay := Table.entry run.modelsByDay (measures.dayOf (at' / 1000)) [] fun rows =>
      ModelUsage.addTo rows usage
    models := ModelUsage.addTo run.models usage }

def call (measures : Measures) (run : InFlight) (event : RecordedEvent) (at' : Int) : InFlight :=
  match event.eventType.phase with
  | some .start =>
    { run with
      llmCalls := run.llmCalls + 1
      calls := run.calls.insert event.metadata.spanKey
        ⟨at', none, event.dataStr "model"⟩ }
  | some .point =>
    if event.eventType.asStr = "llm.first_token" then
      { run with calls := run.calls.modify event.metadata.spanKey fun call =>
          { call with firstTokenMs := some (call.firstTokenMs.getD at') } }
    else run
  | some (.ended ok) => callEnded measures run event at' ok
  | none => run

/-- Whether an event says that its run is over, and how it went. -/
def endsRun (event : RecordedEvent) : Option Bool :=
  match event.eventType.subject, event.eventType.phase with
  | .run, some (.ended ok) | .execution, some (.ended ok) => some ok
  | _, _ => none

/-- Whether an event starts its run. -/
def startsRun (event : RecordedEvent) : Bool :=
  event.eventType.subject == .run && event.eventType.phase == some .start

/-- Keep a run naming a variant, at the first of its events that does not end it. -/
def track (fold : PeriodFold) (event : RecordedEvent) : PeriodFold :=
  if !fold.runs.contains event.metadata.runId && (endsRun event).isNone &&
      fold.runs.size < mostInFlight then
    match event.metadata.variantId with
    | some variantId =>
      let run : InFlight :=
        { variantId
          project := event.metadata.project
          startedMs := millis event.metadata.occurredAt }
      { fold with runs := fold.runs.insert event.metadata.runId run }
    | none => fold
  else fold

/-- What a run in flight takes from one of its events. -/
def heard (measures : Measures) (run : InFlight) (event : RecordedEvent) : InFlight :=
  let at' := millis event.metadata.occurredAt
  let run := numbered run event (startsRun event)
  let run := { run with startedMs := min run.startedMs at', lastMs := max run.lastMs at' }
  let run := if startsRun event then
      { run with
        sawStart := true
        measured := run.measured || (event.dataStr "evaluation_id").isSome }
    else run
  if event.eventType.subject = .llm then call measures run event at' else run

/-- Count the run an event ends. -/
def ended (measures : Measures) (fold : PeriodFold) (event : RecordedEvent) (ok : Bool) :
    PeriodFold :=
  let endSeconds := unixTimestamp event.metadata.occurredAt
  match fold.runs[event.metadata.runId]? with
  | some run =>
    finish measures { fold with runs := fold.runs.erase event.metadata.runId } run ok
      (millis event.metadata.occurredAt) endSeconds
  | none =>
    match event.metadata.variantId with
    | some variantId => fold.finishUnseen event.metadata.project variantId ok endSeconds
    | none => fold

/-- Read the start of a run in its client's count of runs. -/
def startNumbered (fold : PeriodFold) (event : RecordedEvent) : PeriodFold :=
  if startsRun event then
    match event.metadata.runSequence with
    | some number => fold.runsNumbered event number.toNat false
    | none => fold
  else fold

/-- What the runs, the clients' counts and the open periods take from an event: `fold` in the
source. -/
def foldEvent (measures : Measures) (fold : PeriodFold) (event : RecordedEvent) : PeriodFold :=
  if event.eventType.subject = .client then
    match (event.data.get "runs").bind Value.asU64 with
    | some runs => fold.runsNumbered event runs.toNat true
    | none => fold
  else
    let fold := (fold.track event).startNumbered event
    let fold := { fold with
      runs := fold.runs.modify event.metadata.runId fun run => heard measures run event }
    match endsRun event with
    | some ok => ended measures fold event ok
    | none => fold

/-! ## Closing -/

/-- The open periods that end by an edge. -/
def closing (fold : PeriodFold) (edge : Int) : List Int :=
  fold.openPeriods.keys.filter fun start =>
    start < edge && start + fold.widthAt start ≤ edge

/-- Add a record to the rollup of one start. -/
def rolledUp (level start : Int) (rollup : Variants) (record : ObservedPeriod) : Variants :=
  Table.entry rollup (keyed record.project record.variantId)
    (empty record.project record.variantId start (start + level)) fun into =>
      (into.merge record).mergeLate record

/-- Add a closed period's records to the rollup of one level it lies in, unless that began before
the fold did. -/
def addToLevel (began start : Int) (variants : Variants)
    (rollups : BTreeMap Int (BTreeMap Int Variants)) (level : Int) :
    BTreeMap Int (BTreeMap Int Variants) :=
  let at' := start / level * level
  if at' < began then rollups
  else
    Table.entry rollups level ∅ fun starts => Table.entry starts at' ∅ fun rollup =>
      (BTreeMap.values variants).foldl (rolledUp level at') rollup

/-- Close one period, and add it to the hour and the day it lies in. -/
def closePeriod (began : Int) (fold : PeriodFold) (start : Int) : PeriodFold :=
  match fold.openPeriods[start]? with
  | none => fold
  | some variants =>
    { fold with
      openPeriods := fold.openPeriods.erase start
      rollups := (fold.rollupLevels start).foldl (addToLevel began start variants) fold.rollups
      closed := fold.closed ++
        [⟨fold.widthAt start, start, BTreeMap.values variants, fold.through⟩] }

/-- The hours or days that end by an edge. -/
def endedBy (edge level : Int) (starts : BTreeMap Int Variants) : List Int :=
  starts.keys.filter fun start => start < edge && start + level ≤ edge

/-- Close every hour and day that ends by an edge. -/
def closeRollups (fold : PeriodFold) (edge : Int) : PeriodFold :=
  { fold with
    rollups := fold.rollups.map fun level starts => Table.dropAll starts (endedBy edge level starts)
    closed := fold.closed ++ fold.rollups.toList.flatMap fun row =>
      (endedBy edge row.1 row.2).filterMap fun start => row.2[start]?.map fun variants =>
        ⟨row.1, start, BTreeMap.values variants, fold.through⟩ }

/-- Close every period the log's clock has passed, then every hour and day whose last period that
was. -/
def close (fold : PeriodFold) : PeriodFold :=
  match fold.clock, fold.began with
  | some clock, some began =>
    let edge := fold.floorAt (clock - fold.graceAt clock)
    if edge ≤ fold.closedThrough.getD began then fold
    else
      let fold := ((fold.closing edge).foldl (closePeriod began) fold).closeRollups edge
      { fold with
        closedThrough := some edge
        missedSpans := fold.missedSpans.filter fun span => edge ≤ span.2 + day }
  | _, _ => fold

/-! ## Reading -/

/-- The log's clock moved up to a moment. -/
def ticked (fold : PeriodFold) (bound : Int) : PeriodFold :=
  { fold with clock := some ((fold.clock.map (max · bound)).getD bound) }

/-- Take the place of an event at a new position: what lay before it may be missing, and the
first of all opens the fold. -/
def reached (fold : PeriodFold) (position : Nat) (bound : Int) : PeriodFold :=
  let fold := match fold.through with
    | some through =>
      if fold.contiguous && through + 1 < position then fold.missedBefore through position bound
      else fold
    | none => fold
  { fold with
    through := some position
    began := some (fold.began.getD (fold.floorAt bound))
    firstRead := some (fold.firstRead.getD bound) }

/-- Fold one event in, once: an event at or before `through` is skipped. -/
def apply (measures : Measures) (fold : PeriodFold) (event : RecordedEvent) : PeriodFold :=
  let position := event.metadata.globalPosition.toNat
  if fold.through.any fun through => position ≤ through then fold
  else
    let bound := unixTimestamp (min event.metadata.occurredAt event.metadata.ingestedAt)
    let fold := fold.reached position bound
    let fold := if event.eventType.subject = .eval then fold else foldEvent measures fold event
    (fold.ticked bound).close

/-- A fold that has read through a position. -/
def readThrough (fold : PeriodFold) (through : Option Nat) : PeriodFold := { fold with through }

/-- Positions between where the fold stands and a page's first are missing. -/
def beforePage (fold : PeriodFold) (through : Nat) (page : JournalPage) : PeriodFold :=
  if through + 1 < page.first then
    (fold.missedBefore through page.first page.start).readThrough (some (page.first - 1))
  else fold

/-- Fold in what a journal page kept of one event. -/
def refillOne (measures : Measures) (last : Nat) (fold : PeriodFold) (event : RecordedEvent) :
    PeriodFold :=
  let position := event.metadata.globalPosition.toNat
  if position ≤ fold.through.getD 0 ∨ last < position then fold
  else apply measures (fold.readThrough (some (position - 1))) event

/-- Fold in what a journal page kept of positions the fold was never given, up to `until'`; `none`
when the page reaches nothing past where the fold stands. -/
def refill (measures : Measures) (fold : PeriodFold) (page : JournalPage) (until' : Nat) :
    Option PeriodFold :=
  match fold.through with
  | none => none
  | some through =>
    let last := min page.last until'
    if page.last ≤ through ∨ last < page.first then none
    else
      let fold := page.events.foldl (refillOne measures last) (fold.beforePage through page)
      let fold := fold.readThrough (some (max last (fold.through.getD 0)))
      some (if last = page.last then (fold.ticked page.clock).close else fold)

/-! ## Writing -/

/-- Forget a closed period once it is written. -/
def written (fold : PeriodFold) (level start : Int) : PeriodFold :=
  { fold with closed := fold.closed.eraseP fun period =>
      period.level == level && period.start == start }

/-- Forget a gap once it is written down. -/
def gapWritten (fold : PeriodFold) (gap : LogGap) : PeriodFold :=
  { fold with missed := fold.missed.filter fun held => held ≠ gap }

/-- Whether a closed period is one of the fold's own periods rather than an hour or a day. -/
def isBase (fold : PeriodFold) (period : ClosedPeriod) : Bool :=
  period.level == fold.widthAt period.start

/-- Where the store holds every period of the fold's own widths. -/
def baseWritten (fold : PeriodFold) : Option Int :=
  fold.closedThrough.map fun closed =>
    ((fold.closed.filter fold.isBase).map ClosedPeriod.start).foldl min closed

/-- Where the store holds every hour, or every day. -/
def rollupWritten (fold : PeriodFold) (level : Int) : Option Int :=
  fold.closedThrough.map fun closed =>
    ((fold.closed.filter fun period => period.level == level && !fold.isBase period).map
      ClosedPeriod.start).foldl min (closed / level * level)

/-- The level of the chunk that begins at a moment. -/
def levelOf (fold : PeriodFold) (began start until' : Int) (sliced : Bool) (narrowerThan at' : Int) :
    Int :=
  if sliced && at' = start then fold.widthAt at'
  else
    ((fold.levelsAt at').reverse.filter (· < narrowerThan)).find? (fun level =>
      at' % level = 0 && began ≤ at' && at' + level ≤ until' &&
        (level = fold.widthAt at' ||
          (fold.rollupWritten level).any fun through => at' + level ≤ through))
      |>.getD (fold.widthAt at')

/-- The chunks from a moment on, at most so many. -/
def chunks (levelOf : Int → Int) (until' : Int) : Nat → Int → List (Int × Int)
  | 0, _ => []
  | fuel + 1, at' =>
    if at' < until' then
      (levelOf at', at') :: chunks levelOf until' fuel (at' + levelOf at')
    else []

/-- The chunks that cover `[start, until')` from the store, widest first. -/
def plan (fold : PeriodFold) (start until' : Int) (sliced : Bool) (narrowerThan : Int) :
    List (Int × Int) :=
  match fold.began with
  | none => []
  | some began =>
    chunks (fold.levelOf began start until' sliced narrowerThan) until' (until' - start).toNat
      start

/-- What a window reads: the periods of the store it spans, and what the fold holds past them. -/
structure Window where
  edge : Int := 0
  since : Int := 0
  countedFrom : Option Int := none
  beforeBegan : Bool := false
  /-- Periods to read from the store, each its level and its start. -/
  stored : List (Int × Int) := []
  /-- The fold's own records past what the store holds. -/
  held : List ObservedPeriod := []
  /-- Runs in flight heard from in the window, by variant. -/
  running : BTreeMap String Nat := ∅
  missed : List LogGap := []

def i64Max : Int := 9223372036854775807

/-- What a window from `since` reads, with the fold's own records in it. -/
def window (fold : PeriodFold) (project : Option Store.ProjectScope) (variantIds : List String)
    (since : Int) : Window :=
  match fold.began, fold.baseWritten.or fold.began with
  | some began, some baseWritten =>
    let wanted := fun (side : Option Store.ProjectScope) (variant : String) =>
      decide (side = project ∧ variant ∈ variantIds)
    let edge := max (fold.floorAt since) began
    let sliced := decide (edge < since)
    let heldFrom := max edge baseWritten
    { edge
      since
      countedFrom := some (if sliced then since else edge)
      beforeBegan := since < began
      stored := fold.plan edge baseWritten sliced i64Max
      held := (((fold.closed.filter fun period =>
          fold.isBase period && heldFrom ≤ period.start).flatMap ClosedPeriod.records) ++
        ((fold.openPeriods.toList.filter fun row => heldFrom ≤ row.1).flatMap fun row =>
          BTreeMap.values row.2)).filter fun record => wanted record.project record.variantId
      running := (BTreeMap.values fold.runs).foldl (fun running run =>
        if !run.measured && since * 1000 ≤ run.lastMs && wanted run.project run.variantId then
          Table.entry running run.variantId 0 (· + 1)
        else running) ∅
      missed := fold.missed.filter fun gap => since ≤ gap.until' }
  | _, _ => {}

end PeriodFold

end Aiwatcher.Periods
