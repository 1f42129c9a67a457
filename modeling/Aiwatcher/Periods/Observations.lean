import Aiwatcher.Events
import Aiwatcher.Library.Tally

/-!
# Aiwatcher.Periods.Observations

What a variant was observed doing in one period (`observations.rs`, `prices.rs`).

A record is its figures, the same runs by the second they ended in, and the runs that ended in an
earlier period, by that period.  Counts are natural numbers and seconds integers; the bucket a
duration falls in, which a logarithm decides, is a parameter.
-/

namespace Aiwatcher.Periods

open Library

/-- What is taken from doubles and from the calendar. -/
structure Measures where
  floats : Floats
  /-- `f64 as i64` -/
  truncate : UInt64 → Int
  /-- `DurationHistogram::bucket` -/
  bucket : Int → Nat
  /-- `day_of` -/
  dayOf : Int → String

/-! ## Model calls -/

/-- Model calls that named one model, and the tokens they reported. -/
structure ModelUsage where
  model : String
  calls : Nat
  inputTokens : Int
  outputTokens : Int
  cachedTokens : Int
  deriving DecidableEq, Repr

/-- Add `usage` to the row for its model, keeping the rows ordered by model. -/
def ModelUsage.addTo (rows : List ModelUsage) (usage : ModelUsage) : List ModelUsage :=
  match rows with
  | [] => [usage]
  | row :: rest =>
    if row.model = usage.model then
      { row with
        calls := row.calls + usage.calls
        inputTokens := row.inputTokens + usage.inputTokens
        outputTokens := row.outputTokens + usage.outputTokens
        cachedTokens := row.cachedTokens + usage.cachedTokens } :: rest
    else if usage.model < row.model then usage :: row :: rest
    else row :: addTo rest usage

/-- Durations in milliseconds, in buckets. -/
structure DurationHistogram where
  buckets : BTreeMap Nat Nat := ∅
  count : Nat := 0
  max : Int := 0

namespace DurationHistogram

def add (measures : Measures) (histogram : DurationHistogram) (milliseconds : Int) :
    DurationHistogram where
  buckets := Table.entry histogram.buckets (measures.bucket milliseconds) 0 (· + 1)
  count := histogram.count + 1
  max := Max.max histogram.max milliseconds

def merge (histogram other : DurationHistogram) : DurationHistogram where
  buckets := other.buckets.foldl
    (fun buckets bucket count => Table.entry buckets bucket 0 (· + count)) histogram.buckets
  count := histogram.count + other.count
  max := Max.max histogram.max other.max

end DurationHistogram

/-! ## Records -/

/-- What a record adds up. -/
structure Figures where
  runs : Nat := 0
  succeeded : Nat := 0
  failed : Nat := 0
  measuredRuns : Nat := 0
  runMs : DurationHistogram := {}
  callMs : DurationHistogram := {}
  timeToFirstTokenMs : DurationHistogram := {}
  llmCalls : Nat := 0
  inputTokens : Int := 0
  outputTokens : Int := 0
  models : List ModelUsage := []
  modelsByDay : BTreeMap String (List ModelUsage) := ∅
  firstSeenAt : Option Int := none
  lastSeenAt : Option Int := none
  lateRuns : Nat := 0
  lostEvents : Nat := 0
  lostRuns : Nat := 0
  complete : Bool := false

def earliest : Option Int → Option Int → Option Int
  | some one, some other => some (min one other)
  | one, other => one.or other

def latest : Option Int → Option Int → Option Int
  | some one, some other => some (max one other)
  | one, other => one.or other

/-- Add another period's runs of the same variant to this one. -/
def Figures.merge (figures other : Figures) : Figures where
  runs := figures.runs + other.runs
  succeeded := figures.succeeded + other.succeeded
  failed := figures.failed + other.failed
  measuredRuns := figures.measuredRuns + other.measuredRuns
  runMs := figures.runMs.merge other.runMs
  callMs := figures.callMs.merge other.callMs
  timeToFirstTokenMs := figures.timeToFirstTokenMs.merge other.timeToFirstTokenMs
  llmCalls := figures.llmCalls + other.llmCalls
  inputTokens := figures.inputTokens + other.inputTokens
  outputTokens := figures.outputTokens + other.outputTokens
  models := other.models.foldl ModelUsage.addTo figures.models
  modelsByDay := other.modelsByDay.foldl
    (fun days day models => Table.entry days day [] fun rows => models.foldl ModelUsage.addTo rows)
    figures.modelsByDay
  firstSeenAt := earliest figures.firstSeenAt other.firstSeenAt
  lastSeenAt := latest figures.lastSeenAt other.lastSeenAt
  lateRuns := figures.lateRuns + other.lateRuns
  lostEvents := figures.lostEvents + other.lostEvents
  lostRuns := figures.lostRuns + other.lostRuns
  complete := figures.complete && other.complete

/-- Runs by the second they ended in: a part of a record, of `[start, stop)`. -/
structure Slice where
  start : Int
  stop : Int
  figures : Figures

/-- Runs that ended in `[start, stop)` and reached the log after it had closed. -/
structure LateRuns where
  start : Int
  stop : Int
  figures : Figures
  slices : BTreeMap Nat Slice

/-- One variant's runs that ended in one period, `[start, stop)`, in Unix seconds. -/
structure ObservedPeriod where
  variantId : String
  project : Option Store.ProjectScope
  start : Int
  stop : Int
  figures : Figures
  slices : BTreeMap Nat Slice
  late : BTreeMap Int LateRuns

/-- A part of nothing yet. -/
def Slice.empty (start stop : Int) : Slice := ⟨start, stop, { complete := true }⟩

/-- Late runs of nothing yet. -/
def LateRuns.empty (start stop : Int) : LateRuns := ⟨start, stop, { complete := true }, ∅⟩

/-- Add late runs of another record, slices and all. -/
def LateRuns.merge (into late : LateRuns) : LateRuns :=
  { into with
    figures := into.figures.merge late.figures
    slices := late.slices.foldl (fun slices offset slice =>
      Table.entry slices offset (Slice.empty slice.start slice.stop) fun into =>
        { into with figures := into.figures.merge slice.figures }) into.slices }

/-- A record of nothing yet, for `[start, stop)`. -/
def empty (project : Option Store.ProjectScope) (variantId : String) (start stop : Int) :
    ObservedPeriod where
  variantId
  project
  start
  stop
  figures := { complete := true }
  slices := ∅
  late := ∅

/-- Add a run's figures to the slice of the second it ended in. -/
def sliced (slices : BTreeMap Nat Slice) (endedIn offset : Int) (run : Figures) :
    BTreeMap Nat Slice :=
  let second := if 0 ≤ offset ∧ offset ≤ 4294967295 then offset.toNat else 4294967295
  Table.entry slices second (Slice.empty (endedIn + offset) (endedIn + offset + 1)) fun slice =>
    { slice with figures := slice.figures.merge run }

namespace ObservedPeriod

/-- Add another period's runs to this one's figures. -/
def merge (period other : ObservedPeriod) : ObservedPeriod :=
  { period with figures := period.figures.merge other.figures }

/-- Add another record's late runs to this one's, by the period each ended in. -/
def mergeLate (period other : ObservedPeriod) : ObservedPeriod :=
  { period with
    late := other.late.foldl (fun all endedIn late =>
      Table.entry all endedIn (LateRuns.empty late.start late.stop) fun into => into.merge late)
      period.late }

end ObservedPeriod

end Aiwatcher.Periods
