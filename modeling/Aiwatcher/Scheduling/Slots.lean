import Aiwatcher.Core
import Aiwatcher.Library.Sequences
import Mathlib.Data.List.Sort

/-!
# Aiwatcher.Scheduling.Slots

Which instants a cadence fires at, inside an interval (`schedule/rule.rs`).  Dates and
wall times are counts from 1970-01-01 on the local calendar, and what a zone database
says about a zone is a parameter (`Tz`).

The slots of a schedule do not depend on how time is cut: a cadence in a zone names a set
of instants (`Fires`), and `slotsBetween` lists the part of it in one interval.
-/

namespace Aiwatcher.Scheduling

open Library List Duration

/-! ## Schedules -/

/-- How often a definition runs. -/
inductive Cadence where
  | hourly (minute : UInt8)
  | daily (hour minute : UInt8)
  | weekly (weekday hour minute : UInt8)
  deriving DecidableEq, Repr

/-- What to do when a slot comes round and the last one is still going. -/
inductive OverlapPolicy where
  | skip
  | allow
  deriving DecidableEq, Repr

/-- A definition's schedule, as somebody set it. -/
structure Schedule where
  cadence : Cadence
  timezone : String
  enabled : Bool
  overlap : OverlapPolicy

/-! ## The calendar -/

/-- A calendar date, in days since 1970-01-01. -/
abbrev Date := Int

/-- What a clock reads: a date and a time of day, in nanoseconds since 1970-01-01T00:00. -/
abbrev PrimitiveDateTime := Int

/-- The nanoseconds of a day. -/
def dayLength : Duration := Duration.seconds 86400

def PrimitiveDateTime.date (wall : PrimitiveDateTime) : Date := wall / dayLength

/-- `Time::from_hms(hour, minute, 0)`, in nanoseconds since midnight. -/
def timeFromHm (hour minute : UInt8) : Option Duration :=
  if hour < 24 ∧ minute < 60 then
    some (Duration.seconds (3600 * (hour.toNat : Int) + 60 * (minute.toNat : Int)))
  else none

/-- `PrimitiveDateTime::new`. -/
def PrimitiveDateTime.new (date : Date) (time : Duration) : PrimitiveDateTime :=
  date * dayLength + time

/-- A date's weekday, Monday being 0: 1970-01-01 was a Thursday. -/
def weekdayNumber (date : Date) : UInt8 := UInt8.ofNat ((date + 3) % 7).toNat

/-! ## Zones -/

/-- The widest offset assumed of a zone, in seconds: fourteen hours, as `clocks_reach` does. -/
def widestOffset : Int := 50400

/-- An offset from UTC, in seconds. -/
abbrev UtcOffset := { seconds : Int // -widestOffset ≤ seconds ∧ seconds ≤ widestOffset }

/-- The answers to what offset a wall time was read with. -/
inductive OffsetResult where
  | some (offset : UtcOffset)
  | ambiguous (one other : UtcOffset)
  | none

/-- What the zone database knows of one zone: its offset at each instant, and the offsets
a wall time is read with. -/
structure Tz where
  offsetUtc : OffsetDateTime → UtcOffset
  offsetLocal : PrimitiveDateTime → OffsetResult

/-- The zones this build knows, by name. -/
abbrev Zones := String → Option Tz

/-- What a clock in `zone` reads at an instant. -/
def localWall (instant : OffsetDateTime) (zone : Tz) : PrimitiveDateTime :=
  instant + Duration.seconds (zone.offsetUtc instant)

def localDate (instant : OffsetDateTime) (zone : Tz) : Date := (localWall instant zone).date

/-- `assume_offset`: the instant at which a clock with this offset reads `wall`. -/
def assumeOffset (wall : PrimitiveDateTime) (offset : UtcOffset) : OffsetDateTime :=
  wall - Duration.seconds offset

/-- The first instant whose local time has reached `wall`, for a `wall` the clocks skipped:
a bisection over whole seconds, and nothing when the window holds no such place. -/
def clocksReach (wall : PrimitiveDateTime) (zone : Tz) : Option OffsetDateTime :=
  let anchor := wall / Duration.seconds 1
  let low := anchor - 14 * 3600
  let high := anchor + 14 * 3600
  let reached : Int → Bool := fun seconds => wall ≤ localWall (Duration.seconds seconds) zone
  if reached low || !reached high then none
  else some (Duration.seconds (bisect reached (28 * 3600) low high))

/-! ## Slots -/

namespace Schedule

/-- The hours of a day. -/
def hours : List UInt8 := (List.range 24).map UInt8.ofNat

/-- Every wall-clock time this cadence names on one local date. -/
def wallTimesOn (schedule : Schedule) (date : Date) : List PrimitiveDateTime :=
  let at' (hours : List UInt8) (minute : UInt8) :=
    hours.filterMap fun hour => (timeFromHm hour minute).map (PrimitiveDateTime.new date)
  match schedule.cadence with
  | .hourly minute => at' hours minute
  | .daily hour minute => at' [hour] minute
  | .weekly weekday hour minute => if weekdayNumber date != weekday then [] else at' [hour] minute

/-- The instants one wall-clock time happens at, in this zone: a repeated hour is two hours
and one day, a skipped one no hour and the moment the clocks pass it. -/
def resolve (schedule : Schedule) (wall : PrimitiveDateTime) (zone : Tz) : List OffsetDateTime :=
  match zone.offsetLocal wall with
  | .some offset => [assumeOffset wall offset]
  | .ambiguous one other =>
    let first := min (assumeOffset wall one) (assumeOffset wall other)
    let second := max (assumeOffset wall one) (assumeOffset wall other)
    match schedule.cadence with
    | .hourly _ => [first, second]
    | .daily .. | .weekly .. => [first]
  | .none =>
    match schedule.cadence with
    | .hourly _ => []
    | .daily .. | .weekly .. => (clocksReach wall zone).toList

/-- The dates the walk visits, two days either side of the interval's own. -/
def datesAround (previous now : OffsetDateTime) (zone : Tz) : List Date :=
  let first := localDate previous zone - 2
  let last := localDate now zone + 2
  (List.range (last + 1 - first).toNat).map fun n : Nat => first + (n : Int)

/-- Every instant this schedule fires at, after `previous` and up to `now`, oldest first. -/
def slotsBetween (zones : Zones) (schedule : Schedule) (previous now : OffsetDateTime) :
    List OffsetDateTime :=
  if !schedule.enabled || now ≤ previous then []
  else
    match zones schedule.timezone with
    | none => []
    | some zone =>
      let found := (datesAround previous now zone).foldl (fun slots date =>
        (schedule.wallTimesOn date).foldl (fun slots wall =>
          (schedule.resolve wall zone).foldl (fun slots instant =>
            if previous < instant ∧ instant ≤ now ∧ instant ∉ slots then slots ++ [instant]
            else slots) slots) slots) []
      found.insertionSort (· ≤ ·)

/-- The next instant this schedule fires at, after `now`: the first slot of eight days. -/
def nextAfter (zones : Zones) (schedule : Schedule) (now : OffsetDateTime) :
    Option OffsetDateTime :=
  (schedule.slotsBetween zones now (now + 8 * dayLength)).head?

end Schedule

/-! ## Collecting without repeats -/

section Collect

variable {α : Type} [DecidableEq α] (p : α → Prop) [DecidablePred p]

/-- Add an element that qualifies and is not there yet. -/
def collect (found : List α) (a : α) : List α :=
  if p a ∧ a ∉ found then found ++ [a] else found

theorem mem_foldl_collect (l found : List α) (a : α) :
    a ∈ l.foldl (collect p) found ↔ a ∈ found ∨ (a ∈ l ∧ p a) := by
  induction l generalizing found with
  | nil => simp
  | cons b l ih =>
    rw [foldl_cons, ih, collect]
    split
    · rename_i hb
      simp only [mem_append, mem_cons, not_mem_nil, or_false]
      by_cases hab : a = b
      · subst hab
        simp [hb.1]
      · simp [hab]
    · rename_i hb
      by_cases hab : a = b
      · subst hab
        simp only [mem_cons, true_or, true_and]
        by_cases hp : p a
        · have hmem : a ∈ found := by simpa [hp] using hb
          simp [hmem]
        · simp [hp]
      · simp [hab]

theorem nodup_foldl_collect (l : List α) {found : List α} (h : found.Nodup) :
    (l.foldl (collect p) found).Nodup := by
  induction l generalizing found with
  | nil => exact h
  | cons b l ih =>
    rw [foldl_cons]
    refine ih ?_
    rw [collect]
    split
    · rename_i hb
      rw [nodup_append]
      refine ⟨h, nodup_singleton b, ?_⟩
      intro a ha c hc hac
      rw [mem_singleton.mp hc] at hac
      exact hb.2 (hac ▸ ha)
    · exact h

end Collect

/-! ## Where a slot can be -/

theorem timeFromHm_bounds {hour minute : UInt8} {time : Duration}
    (h : timeFromHm hour minute = some time) :
    0 ≤ time ∧ time < dayLength ∧ time % seconds 1 = 0 := by
  unfold timeFromHm at h
  split at h
  · rename_i hrange
    cases h
    have hhour : hour.toNat < 24 := hrange.1
    have hminute : minute.toNat < 60 := hrange.2
    simp only [seconds, dayLength]
    lia
  · cases h

variable {s : Schedule} {wall : PrimitiveDateTime} {zone : Tz}

theorem mem_wallTimesOn {date : Date} (h : wall ∈ s.wallTimesOn date) :
    wall.date = date ∧ wall % seconds 1 = 0 := by
  have hnew : ∀ (hours : List UInt8) (minute : UInt8), (wall ∈ hours.filterMap fun hour =>
      (timeFromHm hour minute).map (PrimitiveDateTime.new date)) →
        wall.date = date ∧ wall % seconds 1 = 0 := by
    intro hours minute hmem
    obtain ⟨hour, -, hmap⟩ := mem_filterMap.mp hmem
    obtain ⟨time, htime, rfl⟩ := Option.map_eq_some_iff.mp hmap
    have hbounds := timeFromHm_bounds htime
    simp only [PrimitiveDateTime.date, PrimitiveDateTime.new, dayLength, seconds] at *
    lia
  unfold Schedule.wallTimesOn at h
  cases hc : s.cadence with
  | hourly minute => exact hnew _ _ (by simpa [hc] using h)
  | daily hour minute => exact hnew [hour] minute (by simpa [hc] using h)
  | weekly weekday hour minute =>
    simp only [hc] at h
    split at h
    · cases h
    · exact hnew [hour] minute h

theorem localWall_near (instant : OffsetDateTime) (zone : Tz) :
    instant - seconds widestOffset ≤ localWall instant zone ∧
      localWall instant zone ≤ instant + seconds widestOffset := by
  have hoffset := (zone.offsetUtc instant).property
  simp only [localWall, seconds, widestOffset] at *
  lia

theorem assumeOffset_near (wall : PrimitiveDateTime) (offset : UtcOffset) :
    wall - seconds widestOffset ≤ assumeOffset wall offset ∧
      assumeOffset wall offset ≤ wall + seconds widestOffset := by
  have hoffset := offset.property
  simp only [assumeOffset, seconds, widestOffset] at *
  lia

/-- What the search through a gap finds: the first second, of two neighbours, whose local
time has reached the skipped one. -/
theorem clocksReach_spec {instant : OffsetDateTime} (h : clocksReach wall zone = some instant)
    (hwhole : wall % seconds 1 = 0) :
    wall - seconds widestOffset < instant ∧
      instant ≤ wall + seconds widestOffset ∧ instant % seconds 1 = 0 ∧
      wall ≤ localWall instant zone ∧ localWall (instant - seconds 1) zone < wall := by
  unfold clocksReach at h
  simp only at h
  split at h
  · cases h
  · rename_i hends
    cases h
    simp only [Bool.or_eq_true, Bool.not_eq_true', not_or, Bool.not_eq_true, Bool.not_eq_false] at hends
    obtain ⟨hlow, hhigh, hreached, hbefore⟩ := @bisect_spec
      (fun seconds => wall ≤ localWall (Duration.seconds seconds) zone) (28 * 3600)
      (wall / seconds 1 - 14 * 3600) (wall / seconds 1 + 14 * 3600) (by lia)
      hends.1 hends.2 (by lia)
    generalize bisect _ _ _ _ = found at *
    have hseconds : seconds (found - 1) = seconds found - seconds 1 := by
      simp only [seconds]
      lia
    simp only [decide_eq_true_eq, decide_eq_false_iff_not, Int.not_le, hseconds] at hreached hbefore
    refine ⟨?_, ?_, ?_, hreached, hbefore⟩ <;>
      simp only [seconds, widestOffset] at * <;> lia

theorem mem_resolve_near {instant : OffsetDateTime} (h : instant ∈ s.resolve wall zone)
    (hwhole : wall % seconds 1 = 0) :
    wall - seconds widestOffset ≤ instant ∧
      instant ≤ wall + seconds widestOffset := by
  unfold Schedule.resolve at h
  cases hlocal : zone.offsetLocal wall with
  | some offset =>
    simp only [hlocal, mem_singleton] at h
    exact h ▸ assumeOffset_near wall offset
  | ambiguous one other =>
    have hone := assumeOffset_near wall one
    have hother := assumeOffset_near wall other
    simp only [hlocal] at h
    generalize assumeOffset wall one = a at *
    generalize assumeOffset wall other = b at *
    have hboth : instant = min a b ∨ instant = max a b := by
      split at h
      · simpa using h
      · exact Or.inl (mem_singleton.mp h)
      · exact Or.inl (mem_singleton.mp h)
    lia
  | none =>
    simp only [hlocal] at h
    have hreach : clocksReach wall zone = some instant := by
      split at h
      · cases h
      · simpa using h
      · simpa using h
    have hspec := clocksReach_spec hreach hwhole
    lia

/-! ## The instants a schedule fires at -/

/-- A cadence in a zone names an instant: one of the wall times of some date resolves to it. -/
def Schedule.Fires (s : Schedule) (zone : Tz) (instant : OffsetDateTime) : Prop :=
  ∃ date, ∃ wall ∈ s.wallTimesOn date, instant ∈ s.resolve wall zone

theorem mem_datesAround {previous now : OffsetDateTime} {date : Date} :
    date ∈ Schedule.datesAround previous now zone ↔
      localDate previous zone - 2 ≤ date ∧ date ≤ localDate now zone + 2 := by
  simp only [Schedule.datesAround, mem_map, mem_range]
  constructor
  · rintro ⟨n, hn, rfl⟩
    lia
  · intro h
    exact ⟨(date - (localDate previous zone - 2)).toNat, by lia, by lia⟩

/-- The walk visits the date of every slot of the interval. -/
theorem mem_datesAround_of_mem_resolve {date : Date} {instant previous now : OffsetDateTime}
    (hwall : wall ∈ s.wallTimesOn date) (h : instant ∈ s.resolve wall zone)
    (hafter : previous < instant) (hupto : instant ≤ now) :
    date ∈ Schedule.datesAround previous now zone := by
  obtain ⟨hdate, hwhole⟩ := mem_wallTimesOn hwall
  have hnear := mem_resolve_near h hwhole
  have hprevious := localWall_near previous zone
  have hnow := localWall_near now zone
  rw [mem_datesAround, ← hdate]
  simp only [localDate, PrimitiveDateTime.date, dayLength, seconds, widestOffset] at *
  lia

/-- **A slot of an interval** is an instant of it at which the schedule fires. -/
theorem mem_slotsBetween {zones : Zones} {a c instant : OffsetDateTime} :
    instant ∈ s.slotsBetween zones a c ↔ a < instant ∧ instant ≤ c ∧ s.enabled = true ∧
      ∃ zone, zones s.timezone = some zone ∧ s.Fires zone instant := by
  unfold Schedule.slotsBetween
  split
  · rename_i hoff
    refine iff_of_false (by simp) ?_
    rintro ⟨hafter, hupto, hon, -⟩
    simp only [hon, Bool.not_true, Bool.false_or, decide_eq_true_eq] at hoff
    lia
  · rename_i hon
    simp only [Bool.or_eq_true, Bool.not_eq_true', decide_eq_true_eq, not_or, Bool.not_eq_false]
      at hon
    cases hzone : zones s.timezone with
    | none => simp
    | some zone =>
      simp only [mem_insertionSort, Option.some.injEq, exists_eq_left', hon.1, true_and]
      have hcollect : ∀ (slots : List OffsetDateTime) (instant : OffsetDateTime),
          (if a < instant ∧ instant ≤ c ∧ instant ∉ slots then slots ++ [instant] else slots) =
            collect (fun instant => a < instant ∧ instant ≤ c) slots instant := by
        intro slots instant
        simp only [collect, and_assoc]
      simp only [hcollect, ← foldl_flatMap]
      rw [mem_foldl_collect]
      simp only [not_mem_nil, false_or, mem_flatMap]
      constructor
      · rintro ⟨⟨date, -, wall, hwall, hmem⟩, hafter, hupto⟩
        exact ⟨hafter, hupto, date, wall, hwall, hmem⟩
      · rintro ⟨hafter, hupto, date, wall, hwall, hmem⟩
        exact ⟨⟨date, mem_datesAround_of_mem_resolve hwall hmem hafter hupto, wall, hwall, hmem⟩,
          hafter, hupto⟩

theorem pairwise_slotsBetween (zones : Zones) (s : Schedule) (a c : OffsetDateTime) :
    (s.slotsBetween zones a c).Pairwise (· < ·) := by
  unfold Schedule.slotsBetween
  split
  · exact List.Pairwise.nil
  · cases zones s.timezone with
    | none => exact List.Pairwise.nil
    | some zone =>
      have hcollect : ∀ (slots : List OffsetDateTime) (instant : OffsetDateTime),
          (if a < instant ∧ instant ≤ c ∧ instant ∉ slots then slots ++ [instant] else slots) =
            collect (fun instant => a < instant ∧ instant ≤ c) slots instant := by
        intro slots instant
        simp only [collect, and_assoc]
      simp only [hcollect, ← foldl_flatMap]
      have hnodup := nodup_foldl_collect (fun instant : Int => a < instant ∧ instant ≤ c)
        ((Schedule.datesAround a c zone).flatMap fun date =>
          (s.wallTimesOn date).flatMap fun wall => s.resolve wall zone) nodup_nil
      have hle := pairwise_insertionSort (fun p q : Int => p ≤ q) (List.foldl (collect fun
        instant : Int => a < instant ∧ instant ≤ c) [] ((Schedule.datesAround a c zone).flatMap
          fun date => (s.wallTimesOn date).flatMap fun wall => s.resolve wall zone))
      have hdistinct := ((perm_insertionSort (fun p q : Int => p ≤ q) _).nodup_iff).mpr hnodup
      refine (hle.and hdistinct).imp fun h => ?_
      exact lt_of_le_of_ne h.1 h.2

/-- **Slots do not depend on how time is cut.** -/
theorem slotsBetween_append (zones : Zones) (s : Schedule) {a b c : OffsetDateTime} (hab : a ≤ b)
    (hbc : b ≤ c) :
    s.slotsBetween zones a c = s.slotsBetween zones a b ++ s.slotsBetween zones b c := by
  refine (pairwise_slotsBetween zones s a c).eq_of_mem_iff ?_ fun instant => ?_
  · rw [pairwise_append]
    refine ⟨pairwise_slotsBetween zones s a b, pairwise_slotsBetween zones s b c, ?_⟩
    intro p hp q hq
    exact lt_of_le_of_lt (mem_slotsBetween.mp hp).2.1 (mem_slotsBetween.mp hq).1
  · simp only [mem_append, mem_slotsBetween]
    constructor
    · rintro ⟨hafter, hupto, hfires⟩
      by_cases hin : instant ≤ b
      · exact Or.inl ⟨hafter, hin, hfires⟩
      · exact Or.inr ⟨by lia, hupto, hfires⟩
    · rintro (⟨hafter, hupto, hfires⟩ | ⟨hafter, hupto, hfires⟩)
      · exact ⟨hafter, by lia, hfires⟩
      · exact ⟨by lia, hupto, hfires⟩

end Aiwatcher.Scheduling
