import Aiwatcher.Scheduling.Slots
import Mathlib.Algebra.Order.Ring.Int
import Mathlib.Tactic.Ring

/-!
# Aiwatcher.Scheduling.Next

The next slot is the first one the tick will find.  `nextAfter` looks eight days ahead,
which is far enough in a zone that is looked up consistently (`Tz.Consistent`) and whose
clocks never move by more than a day (`Tz.Steady`).
-/

namespace Aiwatcher.Scheduling

open Library List Option Duration PrimitiveDateTime

/-! ## The next slot of an instant -/

/-- The least instant later than `a` that any interval reports. -/
structure IsNext (zones : Zones) (s : Schedule) (a n : OffsetDateTime) : Prop where
  later : a < n
  reported : ∃ p q, n ∈ s.slotsBetween zones p q
  least : ∀ m p q, m ∈ s.slotsBetween zones p q → a < m → n ≤ m

variable {minute : UInt8} {s : Schedule} {wall : PrimitiveDateTime}

theorem mem_slotsBetween_of_mem {zones : Zones} {p q a c n : OffsetDateTime}
    (h : n ∈ s.slotsBetween zones p q) (hafter : a < n) (hupto : n ≤ c) :
    n ∈ s.slotsBetween zones a c :=
  mem_slotsBetween.mpr ⟨hafter, hupto, (mem_slotsBetween.mp h).2.2⟩

theorem head?_eq_some_iff {l : List OffsetDateTime} (hl : l.Pairwise (· < ·)) {n : OffsetDateTime} :
    l.head? = some n ↔ n ∈ l ∧ ∀ m ∈ l, n ≤ m := by
  cases l with
  | nil => simp
  | cons b l =>
    rw [pairwise_cons] at hl
    rw [head?_cons, some.injEq]
    constructor
    · rintro rfl
      refine ⟨mem_cons_self, fun m hm => ?_⟩
      rcases mem_cons.mp hm with rfl | hm
      · exact Int.le_refl m
      · exact Int.le_of_lt (hl.1 m hm)
    · rintro ⟨hmem, hleast⟩
      rcases mem_cons.mp hmem with rfl | hmem
      · rfl
      · have hb := hl.1 n hmem
        have hn := hleast b mem_cons_self
        lia

/-- `nextAfter` is the next slot when that is at most eight days away, and nothing else. -/
theorem nextAfter_eq_some_iff (zones : Zones) (s : Schedule) (a n : OffsetDateTime) :
    s.nextAfter zones a = some n ↔ IsNext zones s a n ∧ n ≤ a + 8 * dayLength := by
  rw [Schedule.nextAfter, head?_eq_some_iff (pairwise_slotsBetween zones s a _)]
  constructor
  · rintro ⟨hmem, hleast⟩
    have hin := mem_slotsBetween.mp hmem
    refine ⟨⟨hin.1, ⟨_, _, hmem⟩, fun m p q hm hafter => ?_⟩, hin.2.1⟩
    by_cases hupto : m ≤ a + 8 * dayLength
    · exact hleast m (mem_slotsBetween_of_mem hm hafter hupto)
    · lia
  · rintro ⟨⟨hlater, ⟨p, q, hmem⟩, hleast⟩, hupto⟩
    refine ⟨mem_slotsBetween_of_mem hmem hlater hupto, fun m hm => ?_⟩
    exact hleast m _ _ hm (mem_slotsBetween.mp hm).1

/-! ## Zones whose next slot is never far -/

/-- The offsets a lookup answers with. -/
def OffsetResult.offsets : OffsetResult → List UtcOffset
  | .some offset => [offset]
  | .ambiguous one other => [one, other]
  | .none => []

/-- A wall time is looked up as exactly the offsets with which it is read. -/
structure Tz.Consistent (zone : Tz) : Prop where
  sound : ∀ wall, ∀ offset ∈ (zone.offsetLocal wall).offsets,
    zone.offsetUtc (assumeOffset wall offset) = offset
  complete : ∀ instant, zone.offsetUtc instant ∈ (zone.offsetLocal (localWall instant zone)).offsets

/-- The clocks move by at most a day within nine days, and stand still for some hour of
every eight days. -/
structure Tz.Steady (zone : Tz) : Prop where
  moves : ∀ p q : OffsetDateTime, p ≤ q + 9 * dayLength → q ≤ p + 9 * dayLength →
    (zone.offsetUtc p : Int) - zone.offsetUtc q ≤ 86400
  settles : ∀ a, ∃ p : OffsetDateTime, a ≤ p ∧ p + Duration.seconds 3600 ≤ a + 8 * dayLength ∧
    ∀ q, p ≤ q → q ≤ p + Duration.seconds 3600 → zone.offsetUtc q = zone.offsetUtc p

/-! ### Hourly -/

theorem exists_hour {time : Duration} (h0 : 0 ≤ time) (hlt : time < dayLength) {minute : UInt8}
    (hminute : minute < 60)
    (hpast : time % seconds 3600 = seconds (60 * (minute.toNat : Int))) :
    ∃ hour ∈ Schedule.hours, timeFromHm hour minute = some time := by
  obtain ⟨n, hn⟩ : ∃ n : Nat, time / seconds 3600 = (n : Int) :=
    Int.eq_ofNat_of_zero_le (Int.ediv_nonneg h0 (by decide))
  have hlt24 : n < 24 := by
    simp only [dayLength, seconds] at *
    lia
  have hnat : (UInt8.ofNat n).toNat = n := by
    rw [UInt8.toNat_ofNat']
    omega
  refine ⟨UInt8.ofNat n, mem_map.mpr ⟨n, mem_range.mpr hlt24, rfl⟩, ?_⟩
  have hhour : UInt8.ofNat n < 24 := by
    rw [UInt8.lt_iff_toNat_lt, hnat]
    exact hlt24
  rw [timeFromHm, if_pos ⟨hhour, hminute⟩, hnat]
  congr 1
  simp only [dayLength, seconds] at *
  lia

section

variable (hc : s.cadence = .hourly minute)

include hc

theorem mem_wallTimesOn_hourly (hminute : minute < 60)
    (hpast : wall % seconds 3600 = seconds (60 * (minute.toNat : Int))) :
    wall ∈ s.wallTimesOn wall.date := by
  have hsplit : wall = new wall.date (wall % dayLength) := by
    simp only [new, date, dayLength, seconds]
    lia
  obtain ⟨hour, hhour, htime⟩ := @exists_hour (wall % dayLength)
    (Int.emod_nonneg _ (by decide)) (Int.emod_lt_of_pos _ (by decide)) minute hminute (by
      simp only [dayLength, seconds] at *
      lia)
  simp only [Schedule.wallTimesOn, hc, mem_filterMap]
  refine ⟨hour, hhour, ?_⟩
  rw [htime, map_some, ← hsplit]

theorem mem_resolve_hourly {zone : Tz} {offset : UtcOffset}
    (h : offset ∈ (zone.offsetLocal wall).offsets) :
    assumeOffset wall offset ∈ s.resolve wall zone := by
  unfold Schedule.resolve
  cases hlocal : zone.offsetLocal wall with
  | some o =>
    rw [hlocal] at h
    rw [mem_singleton.mp h]
    exact mem_cons_self
  | ambiguous one other =>
    rw [hlocal] at h
    simp only [hc, mem_cons, not_mem_nil, or_false]
    simp only [OffsetResult.offsets, mem_cons, not_mem_nil, or_false] at h
    rcases h with rfl | rfl <;> lia
  | none =>
    rw [hlocal] at h
    cases h

theorem fires_soon_hourly (hminute : minute < 60) {zone : Tz} (hzone : zone.Consistent)
    (hsteady : zone.Steady) (a : OffsetDateTime) :
    ∃ n, a < n ∧ n ≤ a + 8 * dayLength ∧ s.Fires zone n := by
  obtain ⟨p, hafter, hupto, hstill⟩ := hsteady.settles a
  -- the first time after `p` that a clock with the offset of `p` shows the minute
  let offset := zone.offsetUtc p
  let past := (p + seconds offset - seconds (60 * (minute.toNat : Int))) %
    seconds 3600
  let n : OffsetDateTime := p + seconds 3600 - past
  have hpast : 0 ≤ past ∧ past < seconds 3600 :=
    ⟨Int.emod_nonneg _ (by decide), Int.emod_lt_of_pos _ (by decide)⟩
  have hoffset : zone.offsetUtc n = offset := hstill n (by lia) (by lia)
  have hwall : localWall n zone = n + seconds offset := by
    rw [localWall, hoffset]
  have hshows : localWall n zone % seconds 3600 =
      seconds (60 * (minute.toNat : Int)) := by
    have hlt : minute.toNat < 60 := hminute
    rw [hwall]
    simp only [n, past, seconds] at *
    lia
  refine ⟨n, by lia, by lia, (localWall n zone).date, localWall n zone,
    mem_wallTimesOn_hourly hc hminute hshows, ?_⟩
  have hmem := mem_resolve_hourly hc (hzone.complete n)
  have hback : assumeOffset (localWall n zone) (zone.offsetUtc n) = n := by
    simp only [assumeOffset, localWall]
    lia
  rwa [hback] at hmem

end

/-! ### Daily and weekly -/

/-- The instant a daily or weekly wall time happens at, and the offsets around it. -/
theorem exists_mem_resolve (hc : ∀ minute, s.cadence ≠ .hourly minute) {zone : Tz}
    (hzone : zone.Consistent) (hwhole : wall % seconds 1 = 0) :
    ∃ n ∈ s.resolve wall zone, wall ≤ n + seconds (zone.offsetUtc n) ∧
      ∃ p, p ≤ n ∧ n ≤ p + seconds 1 ∧ n + seconds (zone.offsetUtc p) ≤ wall := by
  have hassumed : ∀ offset ∈ (zone.offsetLocal wall).offsets,
      wall = assumeOffset wall offset +
        seconds (zone.offsetUtc (assumeOffset wall offset)) := by
    intro offset hmem
    rw [hzone.sound wall offset hmem, assumeOffset]
    lia
  have hone : (0 : Int) ≤ seconds 1 := by decide
  cases hlocal : zone.offsetLocal wall with
  | some offset =>
    have hread := hassumed offset (by simp [hlocal, OffsetResult.offsets])
    refine ⟨assumeOffset wall offset, by simp [Schedule.resolve, hlocal], ?_⟩
    exact ⟨by lia, _, le_refl _, by lia, by lia⟩
  | ambiguous one other =>
    have hfirst : min (assumeOffset wall one) (assumeOffset wall other) ∈ s.resolve wall zone := by
      cases hcad : s.cadence with
      | hourly minute => exact absurd hcad (hc minute)
      | daily _ _ => simp [Schedule.resolve, hlocal, hcad]
      | weekly _ _ _ => simp [Schedule.resolve, hlocal, hcad]
    have hreadOne := hassumed one (by simp [hlocal, OffsetResult.offsets])
    have hreadOther := hassumed other (by simp [hlocal, OffsetResult.offsets])
    refine ⟨_, hfirst, ?_⟩
    rcases min_choice (assumeOffset wall one) (assumeOffset wall other) with h | h
    · rw [h]
      exact ⟨by lia, _, le_refl _, by lia, by lia⟩
    · rw [h]
      exact ⟨by lia, _, le_refl _, by lia, by lia⟩
  | none =>
    -- nobody reads a skipped wall time, so the window's ends are either side of the gap
    have hnobody : ∀ instant, localWall instant zone ≠ wall := by
      rintro instant rfl
      have hmem := hzone.complete instant
      rw [hlocal] at hmem
      cases hmem
    obtain ⟨n, hreach⟩ : ∃ n, clocksReach wall zone = some n := by
      have hlow := hnobody (seconds (wall / seconds 1 - 14 * 3600))
      have hlowNear := localWall_near (seconds (wall / seconds 1 - 14 * 3600)) zone
      have hhighNear := localWall_near (seconds (wall / seconds 1 + 14 * 3600)) zone
      unfold clocksReach
      simp only
      rw [if_neg]
      · exact ⟨_, rfl⟩
      · simp only [Bool.or_eq_true, decide_eq_true_eq, Bool.not_eq_true', decide_eq_false_iff_not]
        simp only [seconds, widestOffset] at *
        lia
    obtain ⟨-, -, hn, hreached, hbefore⟩ := clocksReach_spec hreach hwhole
    refine ⟨n, ?_, hreached, n - seconds 1, by lia, by lia, ?_⟩
    · cases hcad : s.cadence with
      | hourly minute => exact absurd hcad (hc minute)
      | daily _ _ => simp [Schedule.resolve, hlocal, hcad, hreach]
      | weekly _ _ _ => simp [Schedule.resolve, hlocal, hcad, hreach]
    · simp only [localWall, seconds] at *
      lia

theorem fires_soon_of_periodic {s : Schedule} (hc : ∀ minute, s.cadence ≠ .hourly minute)
    {time : Duration} {start : Date} {period : Int} (hperiod : 1 ≤ period ∧ period ≤ 7)
    (hnames : ∀ k : Int, new (start + k * period) time ∈ s.wallTimesOn (start + k * period))
    {zone : Tz} (hzone : zone.Consistent) (hsteady : zone.Steady) (a : OffsetDateTime) :
    ∃ n, a < n ∧ n ≤ a + 8 * dayLength ∧ s.Fires zone n := by
  have hslots := fun k => exists_mem_resolve hc hzone (mem_wallTimesOn (hnames k)).2
  choose slot hmem hread before hle hnear hbefore using hslots
  have hslotNear := fun k => mem_resolve_near (hmem k) (mem_wallTimesOn (hnames k)).2
  let wall0 := new start time
  let step := period * dayLength
  have hstep : dayLength ≤ step ∧ step ≤ 7 * dayLength := by
    simp only [step, dayLength, seconds]
    lia
  have hwall : ∀ k : Int, new (start + k * period) time = wall0 + k * step := by
    intro k
    simp only [wall0, step, new]
    ring
  simp only [hwall] at hread hbefore hslotNear
  -- slots lie either side of `a`: find two neighbours that do
  let far : Int := |a - wall0| + seconds widestOffset + 1
  have hfar : 0 ≤ far ∧ a - wall0 ≤ far - seconds widestOffset - 1 ∧
      wall0 - a ≤ far - seconds widestOffset - 1 := by
    have hle := le_abs_self (a - wall0)
    have hneg := neg_abs_le (a - wall0)
    have hwidest : (0 : Int) ≤ seconds widestOffset := by decide
    simp only [far]
    lia
  have hspread : far ≤ far * step := by
    have hday : (1 : Int) ≤ dayLength := by decide
    exact le_mul_of_one_le_right hfar.1 (le_trans hday hstep.1)
  have hlast := hslotNear far
  have hfirst := hslotNear (-far)
  rw [neg_mul] at hfirst
  obtain ⟨-, -, hafter, hbeforeA⟩ := @bisect_spec (fun k => a < slot k) (far - -far).toNat (-far) far
    (by lia) (by rw [decide_eq_false_iff_not]; lia) (by rw [decide_eq_true_eq]; lia) (by lia)
  generalize bisect _ _ _ _ = k at hafter hbeforeA
  simp only [decide_eq_true_eq, decide_eq_false_iff_not, Int.not_lt] at hafter hbeforeA
  refine ⟨slot k, hafter, ?_, _, _, hnames k, hmem k⟩
  have hnext : (k - 1) * step = k * step - step := by ring
  have hreadBefore := hread (k - 1)
  have hnearBefore := hslotNear (k - 1)
  have hreached := hbefore k
  have hnearHere := hslotNear k
  have hclose := hnear k
  have horder := hle k
  rw [hnext] at hreadBefore hnearBefore
  have hmoves := hsteady.moves (slot (k - 1)) (before k)
  generalize k * step = kstep at *
  simp only [dayLength, seconds, widestOffset] at *
  have hmoved := hmoves (by lia) (by lia)
  lia

theorem weekdayNumber_add_weeks (date : Date) (k : Int) :
    weekdayNumber (date + k * 7) = weekdayNumber date := by
  have hsame : (date + k * 7 + 3) % 7 = (date + 3) % 7 := by lia
  rw [weekdayNumber, weekdayNumber, hsame]

/-- **A schedule that fires at all fires within eight days of any instant.** -/
theorem fires_soon {zone : Tz} (hzone : zone.Consistent) (hsteady : zone.Steady)
    {m : OffsetDateTime} (h : s.Fires zone m) (a : OffsetDateTime) :
    ∃ n, a < n ∧ n ≤ a + 8 * dayLength ∧ s.Fires zone n := by
  obtain ⟨date, wall, hwall, -⟩ := h
  unfold Schedule.wallTimesOn at hwall
  cases hc : s.cadence with
  | hourly minute =>
    simp only [hc] at hwall
    obtain ⟨hour, -, hmap⟩ := mem_filterMap.mp hwall
    obtain ⟨time, htime, -⟩ := map_eq_some_iff.mp hmap
    have hminute : minute < 60 := by
      unfold timeFromHm at htime
      split at htime
      · rename_i hrange
        exact hrange.2
      · cases htime
    exact fires_soon_hourly hc hminute hzone hsteady a
  | daily hour minute =>
    simp only [hc] at hwall
    obtain ⟨_, hhour, hmap⟩ := mem_filterMap.mp hwall
    rw [mem_singleton.mp hhour] at hmap
    obtain ⟨time, htime, -⟩ := map_eq_some_iff.mp hmap
    refine @fires_soon_of_periodic s (by simp [hc]) time 0 1 (by lia) (fun k => ?_) zone hzone
      hsteady a
    simp [Schedule.wallTimesOn, hc, htime]
  | weekly weekday hour minute =>
    simp only [hc] at hwall
    split at hwall
    · cases hwall
    · rename_i hday
      obtain ⟨_, hhour, hmap⟩ := mem_filterMap.mp hwall
      rw [mem_singleton.mp hhour] at hmap
      obtain ⟨time, htime, -⟩ := map_eq_some_iff.mp hmap
      refine @fires_soon_of_periodic s (by simp [hc]) time date 7 (by lia) (fun k => ?_) zone
        hzone hsteady a
      simp only [bne_iff_ne, ne_eq, Decidable.not_not] at hday
      simp [Schedule.wallTimesOn, hc, htime, weekdayNumber_add_weeks, hday]

/-- In a zone like that the next slot is what `nextAfter` says, however far it looks. -/
theorem isNext_le {zones : Zones} {a n : OffsetDateTime} (h : IsNext zones s a n)
    (hzone : ∀ zone, zones s.timezone = some zone → zone.Consistent ∧ zone.Steady) :
    n ≤ a + 8 * dayLength := by
  obtain ⟨p, q, hmem⟩ := h.reported
  obtain ⟨-, -, hon, zone, hknown, hfires⟩ := mem_slotsBetween.mp hmem
  obtain ⟨hconsistent, hsteady⟩ := hzone zone hknown
  obtain ⟨m, hafter, hupto, hm⟩ := fires_soon hconsistent hsteady hfires a
  have hslot : m ∈ s.slotsBetween zones a (a + 8 * dayLength) :=
    mem_slotsBetween.mpr ⟨hafter, hupto, hon, zone, hknown, hm⟩
  exact le_trans (h.least m _ _ hslot hafter) hupto

/-- **Slots do not depend on how time is cut**: an interval cut in two reports the same
slots, every interval reports its own in order, and the next slot is the first one any
interval will report, unless the clocks put it more than eight days away. -/
theorem slots_do_not_depend_on_cuts (zones : Zones) (s : Schedule) :
    (∀ a b c, a ≤ b → b ≤ c →
        s.slotsBetween zones a c = s.slotsBetween zones a b ++ s.slotsBetween zones b c) ∧
      (∀ a c, (s.slotsBetween zones a c).Pairwise (· < ·) ∧
        ∀ n ∈ s.slotsBetween zones a c, a < n ∧ n ≤ c) ∧
      (∀ a n, s.nextAfter zones a = some n ↔ IsNext zones s a n ∧ n ≤ a + 8 * dayLength) ∧
      ((∀ zone, zones s.timezone = some zone → zone.Consistent ∧ zone.Steady) →
        ∀ a n, s.nextAfter zones a = some n ↔ IsNext zones s a n) := by
  refine ⟨fun a b c => slotsBetween_append zones s, fun a c => ⟨pairwise_slotsBetween zones s a c,
    fun n hn => ⟨(mem_slotsBetween.mp hn).1, (mem_slotsBetween.mp hn).2.1⟩⟩,
    nextAfter_eq_some_iff zones s, fun hzone a n => ?_⟩
  rw [nextAfter_eq_some_iff]
  exact and_iff_left_of_imp fun hnext => isNext_le hnext hzone

/-! ## A zone whose clocks are changed once -/

/-- The zone whose clocks are changed from one offset to another at an instant. -/
def Tz.changing (change : OffsetDateTime) (before after : UtcOffset) : Tz where
  offsetUtc instant := if instant < change then before else after
  offsetLocal wall :=
    if assumeOffset wall before < change then
      if change ≤ assumeOffset wall after then .ambiguous before after else .some before
    else if change ≤ assumeOffset wall after then .some after
    else .none

theorem consistent_changing (change : OffsetDateTime) (before after : UtcOffset) :
    (Tz.changing change before after).Consistent where
  sound wall offset hmem := by
    simp only [Tz.changing] at hmem ⊢
    split at hmem
    · split at hmem
      · simp only [OffsetResult.offsets, mem_cons, not_mem_nil, or_false] at hmem
        rcases hmem with rfl | rfl
        · rw [if_pos ‹_›]
        · rw [if_neg (not_lt.mpr ‹_›)]
      · rw [mem_singleton.mp hmem, if_pos ‹_›]
    · split at hmem
      · rw [mem_singleton.mp hmem, if_neg (not_lt.mpr ‹_›)]
      · cases hmem
  complete instant := by
    have hread : ∀ offset : UtcOffset,
        assumeOffset (instant + seconds offset) offset = instant := by
      intro offset
      simp only [assumeOffset]
      lia
    by_cases hbefore : instant < change
    · simp only [Tz.changing, localWall, if_pos hbefore, hread]
      split <;> simp [OffsetResult.offsets]
    · simp only [Tz.changing, localWall, if_neg hbefore, hread, if_pos (not_lt.mp hbefore)]
      split <;> simp [OffsetResult.offsets]

theorem steady_changing (change : OffsetDateTime) {before after : UtcOffset}
    (hback : (before : Int) - after ≤ 86400) (hforward : (after : Int) - before ≤ 86400) :
    (Tz.changing change before after).Steady where
  moves p q _ _ := by
    simp only [Tz.changing]
    split <;> split <;> lia
  settles a := by
    by_cases hsoon : a < change ∧ change ≤ a + seconds 3600
    · refine ⟨change, by lia, ?_, fun q hq _ => ?_⟩
      · simp only [dayLength, seconds] at *
        lia
      · simp only [Tz.changing]
        rw [if_neg (by lia), if_neg (by lia)]
    · refine ⟨a, by lia, ?_, fun q hq hupto => ?_⟩
      · simp only [dayLength, seconds] at *
        lia
      · simp only [Tz.changing]
        by_cases hbefore : a < change
        · rw [if_pos hbefore, if_pos (by lia)]
        · rw [if_neg hbefore, if_neg (by lia)]

theorem hours_within (hours : Int) (h : -14 ≤ hours ∧ hours ≤ 14) :
    -widestOffset ≤ 3600 * hours ∧ 3600 * hours ≤ widestOffset := by
  simp only [widestOffset]
  lia

/-- Hours, as an offset. -/
def offsetOfHours (hours : Int) (h : -14 ≤ hours ∧ hours ≤ 14) : UtcOffset :=
  ⟨3600 * hours, hours_within hours h⟩

/-- Half past two every day, where the clocks go back from three to two at 2026-10-25T01:00Z. -/
def warsawInAutumn : Zones := fun name =>
  if name = "Europe/Warsaw" then
    some (.changing (Duration.seconds 1792890000) (offsetOfHours 2 (by lia)) (offsetOfHours 1 (by lia)))
  else none

def dailyAtHalfPastTwo : Schedule := ⟨.daily 2 30, "Europe/Warsaw", true, .skip⟩

/-- The repeated half hour is one slot, however the night is cut. -/
theorem dailyAtHalfPastTwo_slots :
    dailyAtHalfPastTwo.slotsBetween warsawInAutumn (Duration.seconds 1792886400)
        (Duration.seconds 1792893600) =
      dailyAtHalfPastTwo.slotsBetween warsawInAutumn (Duration.seconds 1792886400)
          (Duration.seconds 1792889000) ++
        dailyAtHalfPastTwo.slotsBetween warsawInAutumn (Duration.seconds 1792889000)
          (Duration.seconds 1792893600) ∧
      IsNext warsawInAutumn dailyAtHalfPastTwo (Duration.seconds 1792886400)
        (Duration.seconds 1792888200) := by
  obtain ⟨hcut, -, -, hnext⟩ := slots_do_not_depend_on_cuts warsawInAutumn dailyAtHalfPastTwo
  refine ⟨hcut _ _ _ (by decide) (by decide), (hnext ?_ _ _).mp (by decide +kernel)⟩
  intro zone hzone
  cases hzone
  exact ⟨consistent_changing _ _ _, steady_changing _ (by decide) (by decide)⟩

/-- Mondays at noon, where the clocks go back by twenty-eight hours. -/
def acrossTheWidestChange : Zones := fun _ =>
  some (.changing (Duration.seconds 600000) (offsetOfHours 14 (by lia))
    (offsetOfHours (-14) (by lia)))

def weeklyAtNoon : Schedule := ⟨.weekly 0 12 0, "somewhere", true, .skip⟩

/-- The slot after the change is more than eight days away, and `nextAfter` misses it. -/
theorem nextAfter_misses_a_slot :
    weeklyAtNoon.nextAfter acrossTheWidestChange (Duration.seconds 338400) = none ∧
      weeklyAtNoon.slotsBetween acrossTheWidestChange (Duration.seconds 338400)
        (Duration.seconds 338400 + 9 * dayLength) = [Duration.seconds 1044000] := by
  decide +kernel

end Aiwatcher.Scheduling
