import Aiwatcher.Periods.Steps

/-!
# Aiwatcher.Periods.Sound

What holds of every fold reached (`Sound`), and of the periods it has closed (`Traced`): the
widths in force cut time into hours, the open periods begin at floors past what has closed, the
open hours and days end past it, and the periods waiting to be written are the last ones closed.

A fold is changed by few kinds of operation; each keeps the invariant by a rule of its own
(`Sound.place`, `Sound.widen`, `Traced.closeAt`).
-/

namespace Aiwatcher.Periods

open List

open Library Table

namespace PeriodFold

theorem hour_pos : 0 < hour := by decide

theorem hour_dvd_day : hour ∣ day := by decide

/-! ## The invariant -/

/-- Whether a period is open at a start. -/
def Opens (fold : PeriodFold) (start : Int) : Prop :=
  (fold.openPeriods[start]?).isSome

/-- Whether an hour or a day is open at a start. -/
def Rolls (rollups : BTreeMap Int (BTreeMap Int Variants)) (level start : Int) : Prop :=
  (rollups[level]?.bind fun starts => starts[start]?).isSome

/-- A start no period may be open before: the start of the fold, or the end of what it has
closed. -/
def AtFront (fold : PeriodFold) (start : Int) : Prop :=
  (∀ c, fold.closedThrough = some c → c ≤ start) ∧
    ∃ b, fold.began = some b ∧ b ≤ start

/-- What holds of every fold reached. -/
structure Sound (fold : PeriodFold) : Prop where
  cuts : Cuts hour fold.widthAt
  began : ∀ b, fold.began = some b → fold.floorAt b = b
  read : fold.through.isSome → fold.began.isSome
  past : ∀ c, fold.closedThrough = some c →
    fold.floorAt c = c ∧ ∃ b, fold.began = some b ∧ b < c
  opened : ∀ start, fold.Opens start → fold.floorAt start = start ∧ fold.AtFront start
  rolled : ∀ level start, Rolls fold.rollups level start →
    (level = hour ∨ level = day) ∧ level ∣ start ∧ level ≠ fold.widthAt start ∧
      ∃ b c, fold.began = some b ∧ fold.closedThrough = some c ∧
        b ≤ start ∧ start < c ∧ c < start + level

/-- A period that is closed, as one of the fold's own or as an hour or a day. -/
structure IsClosed (fold : PeriodFold) (period : ClosedPeriod) : Prop where
  pos : 0 < period.level
  covered : ∃ b c, fold.began = some b ∧ fold.closedThrough = some c ∧
    b ≤ period.start ∧ period.start + period.level ≤ c
  base : fold.isBase period = true → fold.floorAt period.start = period.start

/-- What holds of a fold and of all it has closed. -/
structure Traced (released : List ClosedPeriod) (fold : PeriodFold) : Prop where
  sound : fold.Sound
  waiting : fold.closed <:+ released
  closed : ∀ period ∈ released, fold.IsClosed period
  ordered : (released.filter fold.isBase).Pairwise fun p q => p.start < q.start

/-! ## A new fold -/

variable {width : Int}

theorem widthAt_new (hpos : 0 < width) (t : Int) : (new width).widthAt t = width := by
  have hmax : max width 1 = width := by omega
  simp [widthAt, Widths.widthAt, new, hmax]

theorem sound_new {width : Int} (hpos : 0 < width) (hdvd : width ∣ hour) :
    (new width).Sound where
  cuts := by
    have hwidth : (new width).widthAt = fun _ => width := funext (widthAt_new hpos)
    rw [hwidth]
    exact Cuts.const hpos hdvd
  began := by simp [new]
  read := by simp [new]
  past := by simp [new]
  opened := by simp [new, Opens]
  rolled := by simp [new, Rolls]

theorem traced_new (hpos : 0 < width) (hdvd : width ∣ hour) :
    Traced [] (new width) where
  sound := sound_new hpos hdvd
  waiting := by simp [new]
  closed := by simp
  ordered := by simp

/-! ## What keeps it -/

variable {fold after : PeriodFold} {released : List ClosedPeriod}

/-- **Frame rule**: what opens periods at floors past the front, and leaves the widths, the
beginning and the end of what is closed, keeps the invariant. -/
theorem Sound.mono (h : fold.Sound) (hwidths : after.widths = fold.widths)
    (hbegan : after.began = fold.began) (hclosed : after.closedThrough = fold.closedThrough)
    (hread : after.through.isSome → after.began.isSome)
    (hopens : ∀ start, after.Opens start →
      fold.Opens start ∨ fold.floorAt start = start ∧ fold.AtFront start)
    (hrolls : ∀ level start, Rolls after.rollups level start → Rolls fold.rollups level start) :
    after.Sound := by
  have hwidth : after.widthAt = fold.widthAt := funext fun t => by rw [widthAt, hwidths, widthAt]
  have hfloor : after.floorAt = fold.floorAt := funext fun t => by
    rw [floorAt, hwidth, floorAt]
  refine ⟨?_, ?_, hread, ?_, ?_, ?_⟩
  · rw [hwidth]
    exact h.cuts
  · rw [hbegan, hfloor]
    exact h.began
  · rw [hclosed, hbegan, hfloor]
    exact h.past
  · intro start hstart
    rw [hfloor, AtFront, hclosed, hbegan]
    rcases hopens start hstart with hopen | hnew
    · exact h.opened start hopen
    · exact hnew
  · intro level start hroll
    rw [hbegan, hclosed, hwidth]
    exact h.rolled level start (hrolls level start hroll)

theorem Traced.isBase_eq (h : Traced released fold)
    (hwidth : ∀ t c, fold.closedThrough = some c → t < c → after.widthAt t = fold.widthAt t) :
    ∀ period ∈ released, after.isBase period = fold.isBase period := by
  intro period hperiod
  obtain ⟨hpos, ⟨b, c, hb, hc, hstart, hstop⟩, -⟩ := h.closed period hperiod
  rw [isBase, hwidth period.start c hc (by omega), isBase]

/-- **Frame rule** for all a fold has closed. -/
theorem Traced.frame (h : Traced released fold) (hsound : after.Sound)
    (hclosed : after.closed = fold.closed) (hthrough : after.closedThrough = fold.closedThrough)
    (hbegan : ∀ b, fold.began = some b → after.began = some b)
    (hwidth : ∀ t c, fold.closedThrough = some c → t < c → after.widthAt t = fold.widthAt t) :
    Traced released after := by
  have hbase := h.isBase_eq hwidth
  refine ⟨hsound, by rw [hclosed]; exact h.waiting, ?_, ?_⟩
  · intro period hperiod
    obtain ⟨hpos, ⟨b, c, hb, hc, hstart, hstop⟩, hfloor⟩ := h.closed period hperiod
    refine ⟨hpos, ⟨b, c, hbegan b hb, by rw [hthrough]; exact hc, hstart, hstop⟩, ?_⟩
    rw [hbase period hperiod, floorAt, floorOf, hwidth period.start c hc (by omega)]
    exact hfloor
  · rw [filter_congr hbase]
    exact h.ordered

/-! ### Placing -/

theorem opens_place (fold : PeriodFold) (p : Placement) (start : Int) :
    (fold.place p.project p.variantId p.endSeconds p.run).Opens start ↔
      start = fold.openFrom (fold.floorAt p.endSeconds) ∨ fold.Opens start := by
  simp only [Opens, place, getElem?_entry]
  split
  · simp [*]
  · rename_i hne
    have hne : ¬ start = fold.openFrom (fold.floorAt p.endSeconds) := fun heq => hne heq.symm
    simp [hne]

theorem Sound.openFrom (h : fold.Sound) (hbegan : fold.began.isSome) (endSeconds : Int) :
    fold.floorAt (fold.openFrom (fold.floorAt endSeconds)) =
        fold.openFrom (fold.floorAt endSeconds) ∧
      fold.AtFront (fold.openFrom (fold.floorAt endSeconds)) := by
  obtain ⟨b, hb⟩ := Option.isSome_iff_exists.mp hbegan
  have hfloor : fold.floorAt (fold.floorAt endSeconds) = fold.floorAt endSeconds :=
    h.cuts.floorOf_floorOf endSeconds
  have hpick : ∀ x y : Int, fold.floorAt x = x → fold.floorAt y = y →
      fold.floorAt (max x y) = max x y := by
    intro x y hx hy
    rcases max_choice x y with hmax | hmax <;> rw [hmax] <;> assumption
  have hb' := h.began b hb
  cases hc : fold.closedThrough with
  | none =>
    simp only [PeriodFold.openFrom, AtFront, hb, hc, Option.getD_none, Option.getD_some, max_self]
    exact ⟨hpick _ _ hfloor hb', by simp, b, rfl, le_max_right _ _⟩
  | some c =>
    obtain ⟨hc', -⟩ := h.past c hc
    simp only [PeriodFold.openFrom, AtFront, hb, hc, Option.getD_some]
    refine ⟨hpick _ _ (hpick _ _ hfloor hc') hb', ?_, b, rfl, le_max_right _ _⟩
    rintro _ ⟨⟩
    exact le_max_of_le_left (le_max_right _ _)

theorem Sound.place (h : fold.Sound) (hbegan : fold.began.isSome) (p : Placement) :
    (fold.place p.project p.variantId p.endSeconds p.run).Sound := by
  refine h.mono rfl rfl rfl h.read ?_ fun _ _ hroll => hroll
  intro start hstart
  rcases (opens_place fold p start).mp hstart with rfl | hopen
  · exact .inr (h.openFrom hbegan p.endSeconds)
  · exact .inl hopen

theorem Sound.placeAll (h : fold.Sound) (hbegan : fold.began.isSome)
    (placements : List Placement) : (fold.placeAll placements).Sound ∧
      (fold.placeAll placements).began = fold.began ∧
      (fold.placeAll placements).through = fold.through ∧
      (fold.placeAll placements).widths = fold.widths ∧
      (fold.placeAll placements).closedThrough = fold.closedThrough ∧
      (fold.placeAll placements).closed = fold.closed := by
  induction placements generalizing fold with
  | nil => exact ⟨h, rfl, rfl, rfl, rfl, rfl⟩
  | cons p rest ih => exact ih (h.place hbegan p) hbegan

theorem Traced.foldEvent (h : Traced released fold) (hbegan : fold.began.isSome)
    (measures : Measures) (event : RecordedEvent) :
    Traced released (foldEvent measures fold event) ∧
      (PeriodFold.foldEvent measures fold event).began = fold.began ∧
      (PeriodFold.foldEvent measures fold event).closed = fold.closed := by
  obtain ⟨placements, runs, runCounts, forgotten, heq, -, -⟩ := foldEvent_eq measures fold event
  obtain ⟨hsound, hb, ht, hw, hc, hq⟩ := h.sound.placeAll hbegan placements
  rw [heq]
  refine ⟨h.frame ?_ hq hc (fun b hbs => hb.trans hbs) ?_, hb, hq⟩
  · exact hsound.mono rfl rfl rfl hsound.read (fun _ hopen => .inl hopen) fun _ _ hroll => hroll
  · intro t c _ _
    exact congrArg (fun widths => widths.widthAt t) hw

/-! ### Reading -/

theorem opens_missedBefore (fold : PeriodFold) (through position : Nat) (bound start : Int) :
    (fold.missedBefore through position bound).Opens start ↔ fold.Opens start := by
  simp [Opens, missedBefore]

theorem rolls_missedBefore (fold : PeriodFold) (through position : Nat) (bound level start : Int) :
    Rolls (fold.missedBefore through position bound).rollups level start ↔
      Rolls fold.rollups level start := by
  simp only [Rolls, missedBefore, Std.ExtTreeMap.getElem?_map]
  cases fold.rollups[level]? with
  | none => rfl
  | some starts => simp

theorem Traced.missedBefore (h : Traced released fold) (through position : Nat) (bound : Int) :
    Traced released (fold.missedBefore through position bound) := by
  have hsound : (fold.missedBefore through position bound).Sound :=
    h.sound.mono rfl rfl rfl h.sound.read
      (fun start hopen => .inl ((opens_missedBefore fold through position bound start).mp hopen))
      fun level start hroll => (rolls_missedBefore fold through position bound level start).mp hroll
  exact h.frame hsound rfl rfl (fun _ hb => hb) fun _ _ _ _ => rfl

theorem Sound.begin (h : fold.Sound) (t : Int) :
    { fold with began := some (fold.began.getD (fold.floorAt t)) }.Sound := by
  cases hb : fold.began with
  | some b =>
    have hsame : { fold with began := some b } = fold := by rw [← hb]
    rw [Option.getD_some, hsame]
    exact h
  | none =>
    have hno : ¬ ∃ b, fold.began = some b := by simp [hb]
    refine ⟨h.cuts, ?_, fun _ => rfl, ?_, ?_, ?_⟩
    · rintro _ ⟨⟩
      exact h.cuts.floorOf_floorOf t
    · intro c hc
      obtain ⟨-, b, hb', -⟩ := h.past c hc
      exact absurd ⟨b, hb'⟩ hno
    · intro start hopen
      obtain ⟨-, -, b, hb', -⟩ := h.opened start hopen
      exact absurd ⟨b, hb'⟩ hno
    · intro level start hroll
      obtain ⟨-, -, -, b, -, hb', -⟩ := h.rolled level start hroll
      exact absurd ⟨b, hb'⟩ hno

theorem Traced.reached (h : Traced released fold) (position : Nat) (bound : Int) :
    Traced released (fold.reached position bound) ∧
      (fold.reached position bound).began.isSome ∧
      (fold.reached position bound).closed = fold.closed := by
  have hread : ∀ noticed : PeriodFold, Traced released noticed →
      Traced released { noticed with
        through := some position
        began := some (noticed.began.getD (noticed.floorAt bound))
        firstRead := some (noticed.firstRead.getD bound) } := by
    intro noticed hn
    refine hn.frame ?_ rfl rfl ?_ fun _ _ _ _ => rfl
    · exact (hn.sound.begin bound).mono rfl rfl rfl (fun _ => rfl) (fun _ hopen => .inl hopen)
        fun _ _ hroll => hroll
    · intro b hb
      simp [hb]
  unfold PeriodFold.reached
  dsimp only
  split
  · split
    · exact ⟨hread _ (h.missedBefore _ _ _), rfl, rfl⟩
    · exact ⟨hread _ h, rfl, rfl⟩
  · exact ⟨hread _ h, rfl, rfl⟩

/-! ### Writing -/

theorem Traced.written (h : Traced released fold) {period : ClosedPeriod}
    {rest : List ClosedPeriod} (hqueue : fold.closed = period :: rest) :
    Traced released { fold with closed := rest } := by
  obtain ⟨before, hbefore⟩ := h.waiting
  refine ⟨?_, ⟨before ++ [period], ?_⟩, ?_, h.ordered⟩
  · exact h.sound.mono rfl rfl rfl h.sound.read (fun _ hopen => .inl hopen)
      fun _ _ hroll => hroll
  · rw [← hbefore, hqueue, append_assoc]
    rfl
  · exact fun p hp => ⟨(h.closed p hp).pos, (h.closed p hp).covered, (h.closed p hp).base⟩

/-! ### Widening -/

theorem widthAt_changed (widths : Widths) (switch width t : Int) :
    (widths.changed switch width).widthAt t =
      if switch ≤ t then width else widths.widthAt t := by
  unfold Widths.changed Widths.widthAt
  rw [find?_cons]
  by_cases hle : switch ≤ t
  · simp [hle]
  · -- before the switch, the changes that are kept are all that are asked for
    have hfind : (widths.changes.filter fun change => decide (change.1 < switch)).find?
        (fun change => decide (change.1 ≤ t)) =
          widths.changes.find? fun change => decide (change.1 ≤ t) := by
      rw [find?_filter]
      congr 1
      funext change
      by_cases hchange : change.1 ≤ t
      · have hlt : change.1 < switch := by omega
        simp [hchange, hlt]
      · simp [hchange]
    simp only [hle, decide_false, if_false, hfind]

theorem le_foldl_max (xs : List Int) (x : Int) :
    x ≤ xs.foldl max x ∧ ∀ y ∈ xs, y ≤ xs.foldl max x := by
  induction xs generalizing x with
  | nil => simp
  | cons y ys ih =>
    obtain ⟨hx, hys⟩ := ih (max x y)
    rw [foldl_cons]
    refine ⟨by omega, ?_⟩
    intro z hz
    rcases mem_cons.mp hz with rfl | hz
    · omega
    · exact hys z hz

theorem switchAfter_spec (fold : PeriodFold) (began : Int) :
    hour ∣ fold.switchAfter began ∧ began ≤ fold.switchAfter began ∧
      (∀ start, fold.Opens start → start + fold.widthAt start ≤ fold.switchAfter began) ∧
      (∀ c, fold.closedThrough = some c → c ≤ fold.switchAfter began) ∧
      ∀ clock, fold.clock = some clock → clock ≤ fold.switchAfter began := by
  obtain ⟨hfirst, hall⟩ := le_foldl_max
    (fold.openPeriods.keys.map (fun start => start + fold.widthAt start) ++
      fold.closedThrough.toList ++ fold.clock.toList) began
  have hceil : ∀ x, x ≤ (fold.openPeriods.keys.map (fun start => start + fold.widthAt start) ++
      fold.closedThrough.toList ++ fold.clock.toList).foldl max began →
      x ≤ fold.switchAfter began := by
    intro x hx
    unfold switchAfter hour
    dsimp only
    omega
  refine ⟨Int.dvd_mul_left _ _, hceil began hfirst, ?_, ?_, ?_⟩
  · intro start hopen
    refine hceil _ (hall _ ?_)
    have hmem : start ∈ fold.openPeriods.keys := by
      rw [Std.ExtTreeMap.mem_keys, ← Std.ExtTreeMap.contains_iff_mem,
        ← Std.ExtTreeMap.isSome_getElem?_eq_contains]
      exact hopen
    simp only [mem_append, mem_map]
    exact .inl (.inl ⟨start, hmem, rfl⟩)
  · intro c hc
    exact hceil _ (hall _ (by simp [hc]))
  · intro clock hclock
    exact hceil _ (hall _ (by simp [hclock]))

/-- A change of width: up to a switch the periods are as they were, and from it on they have the
new width; nothing the fold has opened or closed reaches past it. -/
structure ChangesAt (before after : PeriodFold) (width switch : Int) : Prop where
  floor_before : before.floorAt switch = switch
  floor_after : after.floorAt switch = switch
  earlier : ∀ t < switch, after.widthAt t = before.widthAt t ∧
    after.floorAt t = before.floorAt t ∧ before.floorAt t + before.widthAt t ≤ switch
  later : ∀ t, switch ≤ t → after.widthAt t = width ∧ switch ≤ after.floorAt t
  began : ∃ b, before.began = some b ∧ b ≤ switch
  closed : ∀ c, before.closedThrough = some c → c ≤ switch
  opened : ∀ start, before.Opens start → start + before.widthAt start ≤ switch
  clock : ∀ clock, before.clock = some clock → clock ≤ switch

theorem Sound.cuts_changed (h : fold.Sound) {switch width : Int} (hpos : 0 < width)
    (hdvd : width ∣ hour) (hswitch : hour ∣ switch) :
    Cuts hour { fold with widths := fold.widths.changed switch width }.widthAt := by
  have hwidth : { fold with widths := fold.widths.changed switch width }.widthAt =
      fun t => if switch ≤ t then width else fold.widthAt t :=
    funext fun t => widthAt_changed fold.widths switch width t
  rw [hwidth]
  exact h.cuts.change hour_pos hpos hdvd hswitch

theorem Sound.changesAt (h : fold.Sound) {switch width : Int} (hpos : 0 < width)
    (hdvd : width ∣ hour) (hswitch : hour ∣ switch)
    (hbegan : ∃ b, fold.began = some b ∧ b ≤ switch)
    (hclosed : ∀ c, fold.closedThrough = some c → c ≤ switch)
    (hopened : ∀ start, fold.Opens start → start + fold.widthAt start ≤ switch)
    (hclock : ∀ clock, fold.clock = some clock → clock ≤ switch) :
    ChangesAt fold { fold with widths := fold.widths.changed switch width } width switch := by
  have hcuts := h.cuts_changed hpos hdvd hswitch
  have hwidth : ∀ t, { fold with widths := fold.widths.changed switch width }.widthAt t =
      if switch ≤ t then width else fold.widthAt t :=
    widthAt_changed fold.widths switch width
  refine ⟨h.cuts.floorOf_of_dvd hswitch, hcuts.floorOf_of_dvd hswitch, ?_, ?_, hbegan, hclosed,
    hopened, hclock⟩
  · intro t ht
    have hold := hwidth t
    rw [if_neg (by omega)] at hold
    refine ⟨hold, ?_, h.cuts.add_le_of_lt (h.cuts.floorOf_of_dvd hswitch) ht⟩
    rw [floorAt, floorAt, floorOf, floorOf, hold]
  · intro t ht
    have hnew := hwidth t
    rw [if_pos ht] at hnew
    have hmono := hcuts.floorOf_mono ht
    rw [hcuts.floorOf_of_dvd hswitch] at hmono
    exact ⟨hnew, hmono⟩

theorem changeWidth_of_none (hnow : width ≠ fold.widths.widthNow) (hb : fold.began = none) :
    fold.changeWidth width = { fold with widths := ⟨width, []⟩ } := by
  simp only [changeWidth, if_neg hnow, hb]

theorem changeWidth_of_began {width b : Int} (hnow : width ≠ fold.widths.widthNow)
    (hb : fold.began = some b) : fold.changeWidth width =
      { fold with widths := fold.widths.changed (fold.switchAfter b) width } := by
  simp only [changeWidth, if_neg hnow, hb]

/-- **Change rule**: a width configured anew takes over at a switch, or at once where the fold
has not begun. -/
theorem changeWidth_cases (h : fold.Sound) (hpos : 0 < width) (hdvd : width ∣ hour) :
    width = fold.widths.widthNow ∧ fold.changeWidth width = fold ∨
    fold.began = none ∧ fold.changeWidth width = { fold with widths := ⟨width, []⟩ } ∨
    ∃ switch, fold.changeWidth width = { fold with widths := fold.widths.changed switch width } ∧
      hour ∣ switch ∧ ChangesAt fold (fold.changeWidth width) width switch := by
  by_cases hnow : width = fold.widths.widthNow
  · exact .inl ⟨hnow, if_pos hnow⟩
  · rcases Option.eq_none_or_eq_some fold.began with hb | ⟨b, hb⟩
    · exact .inr (.inl ⟨hb, changeWidth_of_none hnow hb⟩)
    · obtain ⟨hswitch, hbegan, hopened, hclosed, hclock⟩ := fold.switchAfter_spec b
      have heq := changeWidth_of_began hnow hb
      refine .inr (.inr ⟨_, heq, hswitch, ?_⟩)
      rw [heq]
      exact h.changesAt hpos hdvd hswitch ⟨b, hb, hbegan⟩ hclosed hopened hclock

theorem Sound.widen (h : fold.Sound) (hpos : 0 < width) (hdvd : width ∣ hour) :
    (fold.changeWidth width).Sound := by
  rcases changeWidth_cases h hpos hdvd with ⟨-, heq⟩ | ⟨hb, heq⟩ | ⟨switch, heq, hswitch, hchange⟩
  · rw [heq]
    exact h
  · have hno : ¬ ∃ b, fold.began = some b := by simp [hb]
    rw [heq]
    refine ⟨?_, fun b hb' => absurd ⟨b, hb'⟩ hno, h.read, ?_, ?_, ?_⟩
    · exact Cuts.const hpos hdvd
    · intro c hc
      obtain ⟨-, b, hb', -⟩ := h.past c hc
      exact absurd ⟨b, hb'⟩ hno
    · intro start hopen
      obtain ⟨-, -, b, hb', -⟩ := h.opened start hopen
      exact absurd ⟨b, hb'⟩ hno
    · intro level start hroll
      obtain ⟨-, -, -, b, -, hb', -⟩ := h.rolled level start hroll
      exact absurd ⟨b, hb'⟩ hno
  · -- a floor up to the switch is a floor still
    have hkeep : ∀ t, t ≤ switch → fold.floorAt t = t → (fold.changeWidth width).floorAt t = t := by
      intro t ht hfloor
      rcases Int.lt_or_eq_of_le ht with hlt | rfl
      · rw [(hchange.earlier t hlt).2.1, hfloor]
      · exact hchange.floor_after
    obtain ⟨b₀, hb₀, hb₀s⟩ := hchange.began
    have hsame : (fold.changeWidth width).began = fold.began ∧
        (fold.changeWidth width).closedThrough = fold.closedThrough ∧
        (fold.changeWidth width).openPeriods = fold.openPeriods ∧
        (fold.changeWidth width).rollups = fold.rollups := by
      rw [heq]
      exact ⟨rfl, rfl, rfl, rfl⟩
    obtain ⟨hbegan, hclosed, hopens, hrollups⟩ := hsame
    refine ⟨?_, ?_, ?_, ?_, ?_, ?_⟩
    · rw [heq]
      exact h.cuts_changed hpos hdvd hswitch
    · intro b hb
      rw [hbegan] at hb
      obtain rfl : b₀ = b := by simpa [hb₀] using hb
      exact hkeep _ hb₀s (h.began _ hb)
    · intro hthrough
      rw [hbegan, hb₀]
      rfl
    · intro c hc
      rw [hclosed] at hc
      rw [hbegan]
      exact ⟨hkeep c (hchange.closed c hc) (h.past c hc).1, (h.past c hc).2⟩
    · intro start hopen
      rw [Opens, hopens] at hopen
      obtain ⟨hfloor, hfront⟩ := h.opened start hopen
      have hend := hchange.opened start hopen
      have hpos := h.cuts.pos start
      rw [AtFront, hclosed, hbegan]
      exact ⟨hkeep start (by omega) hfloor, hfront⟩
    · intro level start hroll
      rw [hrollups] at hroll
      obtain ⟨hlevel, hdvd, hne, b, c, hb, hc, hstart, hlt, hend⟩ := h.rolled level start hroll
      have hcs := hchange.closed c hc
      rw [hbegan, hclosed, (hchange.earlier start (by omega)).1]
      exact ⟨hlevel, hdvd, hne, b, c, hb, hc, hstart, hlt, hend⟩

theorem Sound.frame_changeWidth (h : fold.Sound) (hpos : 0 < width) (hdvd : width ∣ hour) :
    (∃ widths, fold.changeWidth width = { fold with widths }) ∧
      ∀ t c, fold.closedThrough = some c → t < c →
        (fold.changeWidth width).widthAt t = fold.widthAt t := by
  rcases changeWidth_cases h hpos hdvd with ⟨-, heq⟩ | ⟨hb, heq⟩ | ⟨switch, heq, -, hchange⟩
  · exact ⟨⟨fold.widths, heq⟩, fun _ _ _ _ => by rw [heq]⟩
  · refine ⟨⟨_, heq⟩, fun t c hc _ => ?_⟩
    obtain ⟨-, b, hb', -⟩ := h.past c hc
    exact absurd (hb.symm.trans hb') (by simp)
  · refine ⟨⟨_, heq⟩, fun t c hc ht => ?_⟩
    have hcs := hchange.closed c hc
    exact (hchange.earlier t (by omega)).1

theorem Traced.widen (h : Traced released fold) (hpos : 0 < width) (hdvd : width ∣ hour) :
    Traced released (fold.changeWidth width) := by
  obtain ⟨⟨widths, heq⟩, hwidth⟩ := h.sound.frame_changeWidth hpos hdvd
  refine h.frame (h.sound.widen hpos hdvd) ?_ ?_ ?_ hwidth
  · rw [heq]
  · rw [heq]
  · intro b hb
    rw [heq]
    exact hb

/-! ### Closing -/

section Closing

variable {rollups : BTreeMap Int (BTreeMap Int Variants)} {b : Int}

theorem rolls_addToLevel {start l level s : Int} {variants : Variants}
    (h : Rolls (addToLevel b start variants rollups l) level s) :
    Rolls rollups level s ∨ level = l ∧ s = start / l * l ∧ b ≤ s := by
  unfold addToLevel at h
  dsimp only at h
  split at h
  · exact .inl h
  · rw [Rolls, getElem?_entry] at h
    split at h
    · subst_vars
      rw [Option.bind_some, getElem?_entry] at h
      split at h
      · rename_i hs
        exact .inr ⟨rfl, hs.symm, by omega⟩
      · left
        cases hl : rollups[level]? with
        | none => simp [hl] at h
        | some starts =>
          rw [Rolls, hl]
          simpa [hl] using h
    · exact .inl h

theorem rolls_rolling {starts : List Int} {level s : Int}
    (h : Rolls (starts.foldl (fold.rolling b) rollups) level s) :
    Rolls rollups level s ∨
      ∃ p ∈ starts, level ∈ fold.rollupLevels p ∧ s = p / level * level ∧ b ≤ s := by
  induction starts generalizing rollups with
  | nil => exact .inl h
  | cons start rest ih =>
    rw [foldl_cons] at h
    rcases ih h with hold | ⟨p, hp, hlevel, hs, hb⟩
    · unfold rolling at hold
      split at hold
      · exact .inl hold
      · -- one level after the other
        rename_i variants _
        have hlevels : ∀ (levels : List Int) (table : BTreeMap Int (BTreeMap Int Variants)),
            Rolls (levels.foldl (addToLevel b start variants) table) level s →
            Rolls table level s ∨ level ∈ levels ∧ s = start / level * level ∧ b ≤ s := by
          intro levels
          induction levels with
          | nil => exact fun table hroll => .inl hroll
          | cons l levels ihl =>
            intro table hroll
            rcases ihl _ hroll with hfirst | ⟨hmem, hrest⟩
            · rcases rolls_addToLevel hfirst with htable | ⟨rfl, hrest⟩
              · exact .inl htable
              · exact .inr ⟨mem_cons_self, hrest⟩
            · exact .inr ⟨mem_cons_of_mem _ hmem, hrest⟩
        rcases hlevels _ _ hold with htable | ⟨hmem, hs, hb⟩
        · exact .inl htable
        · exact .inr ⟨start, mem_cons_self, hmem, hs, hb⟩
    · exact .inr ⟨p, mem_cons_of_mem _ hp, hlevel, hs, hb⟩

theorem mem_endedBy {edge level start : Int} {starts : BTreeMap Int Variants} :
    start ∈ endedBy edge level starts ↔
      (starts[start]?).isSome ∧ start < edge ∧ start + level ≤ edge := by
  simp [endedBy, ← Std.ExtTreeMap.contains_iff_mem, Std.ExtTreeMap.isSome_getElem?_eq_contains]

theorem mem_closing {edge start : Int} :
    start ∈ fold.closing edge ↔
      fold.Opens start ∧ start < edge ∧ start + fold.widthAt start ≤ edge := by
  simp [closing, Opens, ← Std.ExtTreeMap.contains_iff_mem,
    Std.ExtTreeMap.isSome_getElem?_eq_contains]

theorem rolls_map_dropAll {edge level s : Int}
    (h : Rolls (rollups.map fun level starts => Table.dropAll starts (endedBy edge level starts))
      level s) : Rolls rollups level s ∧ (s < edge → edge < s + level) := by
  rw [Rolls, Std.ExtTreeMap.getElem?_map] at h
  cases hl : rollups[level]? with
  | none => simp [hl] at h
  | some starts =>
    rw [hl, Option.map_some, Option.bind_some, getElem?_dropAll] at h
    split at h
    · cases h
    · rename_i hnot
      rw [mem_endedBy] at hnot
      refine ⟨by rw [Rolls, hl]; exact h, fun hlt => ?_⟩
      by_contra hle
      exact hnot ⟨h, hlt, by omega⟩

/-- The hours and days a base period lies in are wider than the periods in them. -/
theorem Sound.rollupLevels (h : fold.Sound) {p level : Int} (hlevel : level ∈ fold.rollupLevels p) :
    (level = hour ∨ level = day) ∧ level ≠ fold.widthAt (p / level * level) ∧
      p / level * level ≤ p := by
  have hwidest : ∀ t, fold.widthAt t ≤ hour := fun t =>
    Int.le_of_dvd hour_pos (h.cuts.dvd t)
  unfold PeriodFold.rollupLevels at hlevel
  split at hlevel
  · simp only [mem_filter, mem_cons, not_mem_nil, or_false, decide_eq_true_eq] at hlevel
    obtain ⟨rfl | rfl, hlt⟩ := hlevel
    · have hsame : fold.widthAt (p / hour * hour) = fold.widthAt p := by
        apply h.cuts.steady
        rw [Int.mul_ediv_cancel _ (by decide)]
      refine ⟨.inl rfl, by omega, Int.ediv_mul_le p (by decide)⟩
    · have hle := hwidest (p / day * day)
      have hwide : hour < day := by decide
      exact ⟨.inr rfl, by omega, Int.ediv_mul_le p (by decide)⟩
  · cases hlevel

variable {period : ClosedPeriod}

theorem mem_closedRollups {through : Option Nat} {edge : Int}
    (h : period ∈ closedRollups rollups through edge) :
    Rolls rollups period.level period.start ∧ period.start < edge ∧
      period.start + period.level ≤ edge := by
  simp only [closedRollups, mem_flatMap, mem_filterMap] at h
  obtain ⟨⟨level, starts⟩, hrow, start, hended, hclosed⟩ := h
  rw [Std.ExtTreeMap.mem_toList_iff_getElem?_eq_some] at hrow
  obtain ⟨hopen, hlt, hend⟩ := mem_endedBy.mp hended
  obtain ⟨variants, -, rfl⟩ := Option.map_eq_some_iff.mp hclosed
  refine ⟨?_, hlt, hend⟩
  rw [Rolls, hrow]
  exact hopen

theorem mem_closedBase {start : Int} (h : fold.closedBase start = some period) :
    fold.Opens start ∧ period.start = start ∧ period.level = fold.widthAt start := by
  obtain ⟨variants, hvariants, rfl⟩ := Option.map_eq_some_iff.mp h
  exact ⟨by rw [Opens, hvariants]; rfl, rfl, rfl⟩

theorem level_pos {level : Int} (h : level = hour ∨ level = day) : 0 < level := by
  rcases h with rfl | rfl <;> decide

/-- Where a fold may be closed up to: a floor past the front. -/
structure Edge (fold : PeriodFold) (b edge : Int) : Prop where
  began : fold.began = some b
  floor : fold.floorAt edge = edge
  past : ∀ c, fold.closedThrough = some c → c < edge
  began_lt : b < edge

theorem Sound.edge_of_lt (h : fold.Sound) {edge : Int} (hb : fold.began = some b)
    (hfloor : fold.floorAt edge = edge) (hlt : fold.closedThrough.getD b < edge) :
    fold.Edge b edge := by
  refine ⟨hb, hfloor, ?_, ?_⟩
  · intro c hc
    rw [hc, Option.getD_some] at hlt
    exact hlt
  · cases hc : fold.closedThrough with
    | none =>
      rw [hc, Option.getD_none] at hlt
      exact hlt
    | some c =>
      obtain ⟨-, b', hb', hbc⟩ := h.past c hc
      obtain rfl : b' = b := by simpa [hb'] using hb
      rw [hc, Option.getD_some] at hlt
      omega

theorem Sound.edge (h : fold.Sound) {clock b edge : Int} (hb : fold.began = some b)
    (hedge : edge = fold.floorAt (clock - fold.graceAt clock))
    (hlt : fold.closedThrough.getD b < edge) : fold.Edge b edge :=
  h.edge_of_lt hb (by rw [hedge]; exact h.cuts.floorOf_floorOf _) hlt

theorem Sound.rolls_closing (h : fold.Sound) {edge level s : Int} (hedge : fold.Edge b edge)
    (hroll : Rolls ((fold.closing edge).foldl (fold.rolling b) fold.rollups) level s) :
    (level = hour ∨ level = day) ∧ level ∣ s ∧ level ≠ fold.widthAt s ∧ b ≤ s ∧ s < edge := by
  rcases rolls_rolling hroll with hold | ⟨p, hp, hlevel, rfl, hbs⟩
  · obtain ⟨hlevel, hdvd, hne, b', c, hb', hc, hstart, hsc, -⟩ := h.rolled level s hold
    obtain rfl : b' = b := by simpa [hb'] using hedge.began
    have hce := hedge.past c hc
    exact ⟨hlevel, hdvd, hne, hstart, by omega⟩
  · obtain ⟨-, hpedge, -⟩ := mem_closing.mp hp
    obtain ⟨hor, hne, hle⟩ := h.rollupLevels hlevel
    exact ⟨hor, Int.dvd_mul_left _ _, hne, hbs, by omega⟩

theorem Sound.closeAt (h : fold.Sound) {edge : Int} (hedge : fold.Edge b edge) :
    (fold.closeAt b edge).Sound := by
  refine ⟨h.cuts, h.began, h.read, ?_, ?_, ?_⟩
  · rintro _ ⟨⟩
    exact ⟨hedge.floor, b, hedge.began, hedge.began_lt⟩
  · intro start hopen
    have hkept : fold.Opens start ∧ start ∉ fold.closing edge := by
      simp only [Opens, PeriodFold.closeAt, getElem?_dropAll] at hopen
      split at hopen
      · cases hopen
      · exact ⟨hopen, ‹_›⟩
    obtain ⟨hwas, hstays⟩ := hkept
    obtain ⟨hfloor, -, hbegan⟩ := h.opened start hwas
    -- a period before the edge ends by it, and is closed
    have hedgele : edge ≤ start := by
      by_contra hlt
      have hend := h.cuts.add_le_of_lt hedge.floor (show start < edge by omega)
      have hstart : floorOf fold.widthAt start = start := hfloor
      rw [hstart] at hend
      exact hstays (mem_closing.mpr ⟨hwas, by omega, hend⟩)
    refine ⟨hfloor, ?_, hbegan⟩
    rintro _ ⟨⟩
    exact hedgele
  · intro level s hroll
    obtain ⟨hwas, hend⟩ := rolls_map_dropAll hroll
    obtain ⟨hlevel, hdvd, hne, hbs, hlt⟩ := h.rolls_closing hedge hwas
    exact ⟨hlevel, hdvd, hne, b, edge, hedge.began, rfl, hbs, hlt, hend hlt⟩

theorem isBase_closing {edge : Int} (h : period ∈ (fold.closing edge).filterMap fold.closedBase) :
    fold.isBase period = true ∧ period.level = fold.widthAt period.start ∧
      fold.Opens period.start ∧ period.start + period.level ≤ edge := by
  obtain ⟨start, hstart, hclosed⟩ := mem_filterMap.mp h
  obtain ⟨hopen, rfl, hlevel⟩ := mem_closedBase hclosed
  obtain ⟨-, -, hend⟩ := mem_closing.mp hstart
  exact ⟨by simp [isBase, hlevel], hlevel, hopen, by rw [hlevel]; exact hend⟩

theorem Sound.isBase_rollups (h : fold.Sound) {edge : Int} (hedge : fold.Edge b edge) (hperiod : period ∈ closedRollups
      ((fold.closing edge).foldl (fold.rolling b) fold.rollups) fold.through edge) :
    fold.isBase period = false ∧ 0 < period.level ∧ b ≤ period.start ∧
      period.start + period.level ≤ edge := by
  obtain ⟨hrolls, -, hend⟩ := mem_closedRollups hperiod
  obtain ⟨hlevel, -, hne, hbs, -⟩ := h.rolls_closing hedge hrolls
  exact ⟨by simp [isBase, hne], level_pos hlevel, hbs, hend⟩

theorem Sound.filter_closedAt (h : fold.Sound) {edge : Int} (hedge : fold.Edge b edge) :
    (fold.closedAt b edge).filter fold.isBase =
      (fold.closing edge).filterMap fold.closedBase := by
  have hnone : (closedRollups ((fold.closing edge).foldl (fold.rolling b) fold.rollups)
      fold.through edge).filter fold.isBase = [] := by
    rw [filter_eq_nil_iff]
    intro period hperiod
    rw [(h.isBase_rollups hedge hperiod).1]
    exact Bool.false_ne_true
  have hall : ((fold.closing edge).filterMap fold.closedBase).filter fold.isBase =
      (fold.closing edge).filterMap fold.closedBase :=
    filter_eq_self.mpr fun _ hperiod => (isBase_closing hperiod).1
  rw [PeriodFold.closedAt, filter_append, hnone, append_nil, hall]

/-- What is closed with an edge: periods that begin at or past the front, in order, and hours and
days. -/
theorem Sound.closedAt (h : fold.Sound) {edge : Int} (hedge : fold.Edge b edge) :
    (∀ period ∈ fold.closedAt b edge, (fold.closeAt b edge).IsClosed period) ∧
      (∀ period ∈ fold.closedAt b edge, fold.isBase period = true →
        ∀ c, fold.closedThrough = some c → c ≤ period.start) ∧
      ((fold.closedAt b edge).filter fold.isBase).Pairwise fun p q => p.start < q.start := by
  refine ⟨?_, ?_, ?_⟩
  · intro period hperiod
    rcases mem_append.mp hperiod with hperiod | hperiod
    · obtain ⟨-, hlevel, hopen, hend⟩ := isBase_closing hperiod
      obtain ⟨hfloor, -, b', hb', hbs⟩ := h.opened _ hopen
      have hpos := h.cuts.pos period.start
      exact ⟨by omega, ⟨b', edge, hb', rfl, hbs, hend⟩, fun _ => hfloor⟩
    · obtain ⟨hnot, hpos, hbs, hend⟩ := h.isBase_rollups hedge hperiod
      refine ⟨hpos, ⟨b, edge, hedge.began, rfl, hbs, hend⟩, ?_⟩
      intro hyes
      exact absurd (hnot.symm.trans hyes) (by simp)
  · intro period hperiod hyes c hc
    rcases mem_append.mp hperiod with hperiod | hperiod
    · obtain ⟨-, -, hopen, -⟩ := isBase_closing hperiod
      exact (h.opened _ hopen).2.1 c hc
    · obtain ⟨hnot, -⟩ := h.isBase_rollups hedge hperiod
      exact absurd (hnot.symm.trans hyes) (by simp)
  · rw [h.filter_closedAt hedge]
    -- the open periods are closed in the order of their starts
    have hstarts : (fold.closing edge).Pairwise (· < ·) := by
      refine List.Pairwise.filter _ ?_
      refine Std.ExtTreeMap.ordered_keys.imp ?_
      intro x y hxy
      exact Int.compare_eq_lt.mp hxy
    refine List.Pairwise.filterMap _ ?_ hstarts
    intro x y hxy p hp q hq
    obtain ⟨-, hpx, -⟩ := mem_closedBase hp
    obtain ⟨-, hqy, -⟩ := mem_closedBase hq
    omega

/-- **Closing rule**: what a fold closes follows what it has closed, and what stays open is past
the edge. -/
theorem Traced.closeAt (h : Traced released fold) {edge : Int} (hedge : fold.Edge b edge) :
    Traced (released ++ fold.closedAt b edge) (fold.closeAt b edge) := by
  obtain ⟨hnew, hlater, hordered⟩ := h.sound.closedAt hedge
  refine ⟨h.sound.closeAt hedge, ?_, ?_, ?_⟩
  · obtain ⟨before, hbefore⟩ := h.waiting
    exact ⟨before, by rw [← hbefore, append_assoc]; rfl⟩
  · intro period hperiod
    rcases mem_append.mp hperiod with hold | hperiod
    · obtain ⟨hpos, ⟨b', c, hb', hc, hstart, hend⟩, hbase⟩ := h.closed period hold
      have hce := hedge.past c hc
      exact ⟨hpos, ⟨b', edge, hb', rfl, hstart, by omega⟩, hbase⟩
    · exact hnew period hperiod
  · change ((released ++ fold.closedAt b edge).filter fold.isBase).Pairwise _
    rw [filter_append, pairwise_append]
    refine ⟨h.ordered, hordered, ?_⟩
    intro p hp q hq
    obtain ⟨hpmem, -⟩ := mem_filter.mp hp
    obtain ⟨hqmem, hqbase⟩ := mem_filter.mp hq
    obtain ⟨hpos, ⟨_, c, _, hc, -, hend⟩, -⟩ := h.closed p hpmem
    have hcq := hlater q hqmem hqbase c hc
    omega

end Closing

end PeriodFold

end Aiwatcher.Periods
