import Aiwatcher.Periods.Sound

/-!
# Aiwatcher.Periods.Weights

What the records of a fold count, and how each operation moves it: an event that ends a run adds
one to one record of a base period (`weight_foldEvent`); a period that closes takes what it counts
with it (`weight_closeAt`) and adds it to the hour and the day it lies in (`rollWeight_rolling`);
and an hour or a day that closes takes what it counts (`rollWeight_closed`).
-/

namespace Aiwatcher.Periods

open Library List Option Table Std

/-! ## What is counted -/

/-- What a record counts: the runs that ended in its period, and the late ones it holds. -/
def ObservedPeriod.weight (record : ObservedPeriod) : Nat :=
  record.figures.weight + Table.tally (fun _ late => late.figures.weight) record.late

/-- What the records of one start count. -/
def weightOf (variants : Variants) : Nat :=
  Table.tally (fun _ record => ObservedPeriod.weight record) variants

/-- What a closed period counts. -/
def ClosedPeriod.weight (period : ClosedPeriod) : Nat :=
  (period.records.map ObservedPeriod.weight).sum

namespace PeriodFold

/-- What the open periods count. -/
def weight (fold : PeriodFold) : Nat :=
  Table.tally (fun _ variants => weightOf variants) fold.openPeriods

/-- What the open hour or day of a start counts. -/
def rollWeight (rollups : BTreeMap Int (BTreeMap Int Variants)) (level start : Int) : Nat :=
  ((rollups[level]?.bind fun starts => starts[start]?).map weightOf).getD 0

end PeriodFold

@[simp] theorem weightOf_empty : weightOf ∅ = 0 := tally_empty _

@[simp] theorem weight_empty (project : Option Store.ProjectScope) (variantId : String)
    (start stop : Int) : (empty project variantId start stop).weight = 0 := by
  simp [ObservedPeriod.weight, empty, Figures.weight]

@[simp] theorem weight_merge (figures other : Figures) :
    (figures.merge other).weight = figures.weight + other.weight := by
  simp only [Figures.weight, Figures.merge]
  omega

@[simp] theorem weight_doubted (record : ObservedPeriod) :
    (PeriodFold.doubted record).weight = record.weight := rfl

theorem weight_ite_doubted (doubt : Bool) (record : ObservedPeriod) :
    (if doubt then PeriodFold.doubted record else record).weight = record.weight := by
  split
  · exact weight_doubted record
  · rfl

theorem weight_closed (level start : Int) (variants : Variants) (through : Option Nat) :
    ClosedPeriod.weight ⟨level, start, BTreeMap.values variants, through⟩ = weightOf variants := by
  simp only [ClosedPeriod.weight, BTreeMap.values, List.map_map]
  rfl

theorem weight_counted (record : ObservedPeriod) (endedIn endedWidth openFrom offset : Int)
    (run : Figures) : (record.counted endedIn endedWidth openFrom offset run).weight =
      record.weight + run.weight := by
  unfold ObservedPeriod.counted
  split
  · have hlate : Table.tally (fun _ late => late.figures.weight)
        (Table.entry record.late endedIn (LateRuns.empty endedIn (endedIn + endedWidth))
          fun late => { late with
            figures := late.figures.merge run
            slices := sliced late.slices endedIn offset run }) =
        Table.tally (fun _ late => late.figures.weight) record.late + run.weight :=
      tally_entry _ rfl (fun late => weight_merge late.figures run) record.late
    rw [ObservedPeriod.weight, hlate]
    exact (Nat.add_assoc _ _ _).symm
  · simp only [ObservedPeriod.weight, weight_merge]
    omega

theorem weight_rolledUp (into record : ObservedPeriod) :
    ((into.merge record).mergeLate record).weight = into.weight + record.weight := by
  have hlate : Table.tally (fun _ late => late.figures.weight)
      ((into.merge record).mergeLate record).late =
      Table.tally (fun _ late => late.figures.weight) into.late +
        Table.tally (fun _ late => late.figures.weight) record.late := by
    exact Table.tally_foldl_entry (fun _ (late : LateRuns) => late.figures.weight)
      (fun (_ : Int) (late : LateRuns) => late.figures.weight)
      (fun _ late => LateRuns.empty late.start late.stop) (fun _ late into => into.merge late)
      (fun _ _ => rfl) (fun _ _ _ => weight_merge _ _) record.late into.late
  have hfigures : ((into.merge record).mergeLate record).figures.weight =
      into.figures.weight + record.figures.weight := weight_merge _ _
  rw [ObservedPeriod.weight, hlate, hfigures, ObservedPeriod.weight, ObservedPeriod.weight]
  omega

namespace PeriodFold

variable {fold : PeriodFold}

/-! ## Placing -/

theorem weight_place (fold : PeriodFold) (p : Placement) :
    (fold.place p.project p.variantId p.endSeconds p.run).weight =
      fold.weight + p.run.weight := by
  refine tally_entry (fun _ variants => weightOf variants) ?_ ?_ fold.openPeriods
  · exact weightOf_empty
  · intro variants
    refine tally_entry (fun _ record => ObservedPeriod.weight record)
      (weight_empty _ _ _ _) ?_ variants
    intro record
    rw [weight_counted, weight_ite_doubted]

theorem weight_placeAll (fold : PeriodFold) (placements : List Placement) :
    (fold.placeAll placements).weight =
      fold.weight + (placements.map fun p => p.run.weight).sum := by
  induction placements generalizing fold with
  | nil => rfl
  | cons p rest ih =>
    rw [placeAll, foldl_cons, ← placeAll, ih, weight_place, map_cons, sum_cons, Nat.add_assoc]

theorem rollups_placeAll (fold : PeriodFold) (placements : List Placement) :
    (fold.placeAll placements).rollups = fold.rollups := by
  induction placements generalizing fold with
  | nil => rfl
  | cons p rest ih => exact ih (fold.place p.project p.variantId p.endSeconds p.run)

theorem weight_foldEvent (measures : Measures) (fold : PeriodFold) (event : RecordedEvent) :
    (foldEvent measures fold event).weight = fold.weight + (fold.endedIn event).length := by
  obtain ⟨placements, runs, runCounts, forgotten, heq, -, hsum⟩ := foldEvent_eq measures fold event
  rw [heq, ← hsum, ← weight_placeAll]
  rfl

/-- What the open record of a variant counts. -/
def recordWeight (fold : PeriodFold) (start : Int) (key : String) : Nat :=
  ((fold.openPeriods[start]?.bind fun variants => variants[key]?).map ObservedPeriod.weight).getD 0

theorem recordWeight_withCounts (fold : PeriodFold) (runs : BTreeMap String InFlight)
    (runCounts : BTreeMap String RunCount) (forgotten : Option Int) (start : Int) (key : String) :
    (fold.withCounts runs runCounts forgotten).recordWeight start key =
      fold.recordWeight start key := rfl

theorem recordWeight_place (fold : PeriodFold) (p : Placement) (start : Int) (key : String) :
    (fold.place p.project p.variantId p.endSeconds p.run).recordWeight start key =
      fold.recordWeight start key +
        if start = fold.openFrom (fold.floorAt p.endSeconds) ∧ key = keyed p.project p.variantId
        then p.run.weight else 0 := by
  unfold recordWeight PeriodFold.place
  dsimp only
  rw [getElem?_entry]
  by_cases hstart : fold.openFrom (fold.floorAt p.endSeconds) = start
  · subst hstart
    rw [if_pos rfl, bind_some, getElem?_entry]
    by_cases hkey : keyed p.project p.variantId = key
    · subst hkey
      rw [if_pos rfl, map_some, getD_some, weight_counted, weight_ite_doubted, if_pos ⟨rfl, rfl⟩]
      congr 1
      cases fold.openPeriods[fold.openFrom (fold.floorAt p.endSeconds)]? with
      | none => simp
      | some variants => cases hrow : variants[keyed p.project p.variantId]? <;> simp [hrow]
    · have hnot : ¬ (fold.openFrom (fold.floorAt p.endSeconds) =
          fold.openFrom (fold.floorAt p.endSeconds) ∧ key = keyed p.project p.variantId) :=
        fun hall => hkey hall.2.symm
      rw [if_neg hkey, if_neg hnot, Nat.add_zero]
      cases fold.openPeriods[fold.openFrom (fold.floorAt p.endSeconds)]? with
      | none => simp
      | some variants => simp
  · rw [if_neg hstart, if_neg (fun hall => hstart hall.1.symm), Nat.add_zero]

theorem recordWeight_placeAll (fold : PeriodFold) {placements : List Placement}
    (hone : placements.length ≤ 1) : ∃ start key, ∀ s k,
      (fold.placeAll placements).recordWeight s k = fold.recordWeight s k +
        if s = start ∧ k = key then (placements.map fun p => p.run.weight).sum else 0 := by
  cases placements with
  | nil => exact ⟨0, "", fun s k => by simp [placeAll]⟩
  | cons p rest =>
    obtain rfl : rest = [] := by simpa using hone
    refine ⟨fold.openFrom (fold.floorAt p.endSeconds), keyed p.project p.variantId, fun s k => ?_⟩
    rw [map_cons, map_nil, sum_singleton]
    exact fold.recordWeight_place p s k

/-- **One record**: an event adds what it ends to one record, and changes no other. -/
theorem recordWeight_foldEvent (measures : Measures) (fold : PeriodFold) (event : RecordedEvent) :
    ∃ start key, ∀ s k, (foldEvent measures fold event).recordWeight s k =
      fold.recordWeight s k +
        if s = start ∧ k = key then (fold.endedIn event).length else 0 := by
  obtain ⟨placements, runs, runCounts, forgotten, heq, hone, hsum⟩ :=
    foldEvent_eq measures fold event
  obtain ⟨start, key, hrecord⟩ := fold.recordWeight_placeAll hone
  refine ⟨start, key, fun s k => ?_⟩
  rw [heq, ← hsum, recordWeight_withCounts]
  exact hrecord s k

/-! ## Doubting -/

theorem weightOf_doubted (variants : Variants) :
    weightOf (variants.map fun _ => doubted) = weightOf variants := by
  rw [weightOf, tally_map]
  rfl

theorem weight_missedBefore (fold : PeriodFold) (through position : Nat) (bound : Int) :
    (fold.missedBefore through position bound).weight = fold.weight := by
  rw [weight, missedBefore, tally_map]
  refine tally_congr _ fun start variants => ?_
  split
  · exact weightOf_doubted variants
  · rfl

theorem rollWeight_missedBefore (fold : PeriodFold) (through position : Nat) (bound : Int)
    (level start : Int) : rollWeight (fold.missedBefore through position bound).rollups level start =
      rollWeight fold.rollups level start := by
  simp only [rollWeight, missedBefore, ExtTreeMap.getElem?_map]
  cases fold.rollups[level]? with
  | none => rfl
  | some starts =>
    simp only [map_some, bind_some, ExtTreeMap.getElem?_map]
    cases starts[start]? with
    | none => rfl
    | some variants =>
      simp only [map_some, getD_some]
      split
      · exact weightOf_doubted variants
      · rfl

theorem weight_reached (fold : PeriodFold) (position : Nat) (bound : Int) :
    (fold.reached position bound).weight = fold.weight ∧
      (∀ level start, rollWeight (fold.reached position bound).rollups level start =
        rollWeight fold.rollups level start) ∧
      (fold.reached position bound).widths = fold.widths ∧
      ∀ b, fold.began = some b → (fold.reached position bound).began = some b := by
  unfold PeriodFold.reached
  dsimp only
  split
  · rename_i through _
    split
    · refine ⟨fold.weight_missedBefore through position bound,
        fold.rollWeight_missedBefore through position bound, rfl, ?_⟩
      intro b hb
      simp [missedBefore, hb]
    · exact ⟨rfl, fun _ _ => rfl, rfl, fun b hb => by simp [hb]⟩
  · exact ⟨rfl, fun _ _ => rfl, rfl, fun b hb => by simp [hb]⟩

/-! ## Closing -/

/-- What the periods of some kind, among those closed, count. -/
def weightIn (keep : ClosedPeriod → Bool) (periods : List ClosedPeriod) : Nat :=
  ((periods.filter keep).map ClosedPeriod.weight).sum

@[simp] theorem weightIn_append (keep : ClosedPeriod → Bool) (periods more : List ClosedPeriod) :
    weightIn keep (periods ++ more) = weightIn keep periods + weightIn keep more := by
  simp [weightIn]

theorem weightIn_congr {keep other : ClosedPeriod → Bool} {periods : List ClosedPeriod}
    (h : ∀ period ∈ periods, keep period = other period) :
    weightIn keep periods = weightIn other periods := by
  rw [weightIn, filter_congr h, weightIn]

theorem weightIn_eq_zero {keep : ClosedPeriod → Bool} {periods : List ClosedPeriod}
    (h : ∀ period ∈ periods, keep period = false) : weightIn keep periods = 0 := by
  rw [weightIn, filter_eq_nil_iff.mpr (by simpa using h)]
  rfl

theorem weight_closedBase (fold : PeriodFold) (start : Int) :
    ((fold.closedBase start).map ClosedPeriod.weight).getD 0 =
      (fold.openPeriods[start]?.map weightOf).getD 0 := by
  unfold closedBase
  cases fold.openPeriods[start]? with
  | none => rfl
  | some variants => exact weight_closed _ _ _ _

section Closing

variable {rollups : BTreeMap Int (BTreeMap Int Variants)} {b : Int}

theorem weight_closeAt (fold : PeriodFold) (b edge : Int) :
    fold.weight = ((((fold.closing edge).filterMap fold.closedBase)).map ClosedPeriod.weight).sum +
      (fold.closeAt b edge).weight := by
  have hclosed := sum_filterMap_filter fold.closedBase (fun _ => true) ClosedPeriod.weight
    (fold.closing edge)
  rw [filter_eq_self.mpr (fun _ _ => rfl)] at hclosed
  simp only [if_true] at hclosed
  rw [hclosed, weight, Table.tally_dropAll _ (fold.nodup_closing edge)]
  congr 2
  refine map_congr_left fun start _ => ?_
  exact (fold.weight_closedBase start).symm

theorem weightOf_rolledUp (level start : Int) (records : List ObservedPeriod) (rollup : Variants) :
    weightOf (records.foldl (rolledUp level start) rollup) =
      weightOf rollup + (records.map ObservedPeriod.weight).sum := by
  induction records generalizing rollup with
  | nil => rfl
  | cons record rest ih =>
    have hone : weightOf (rolledUp level start rollup record) =
        weightOf rollup + record.weight :=
      tally_entry (fun _ record => ObservedPeriod.weight record) (weight_empty _ _ _ _)
        (fun into => weight_rolledUp into record) rollup
    rw [foldl_cons, ih, hone, map_cons, sum_cons, Nat.add_assoc]

theorem rollWeight_addToLevel (start l level s : Int) (variants : Variants) :
    rollWeight (addToLevel b start variants rollups l) level s = rollWeight rollups level s +
      if l = level ∧ start / l * l = s ∧ b ≤ s then weightOf variants else 0 := by
  have hvalues : ∀ rollup : Variants,
      weightOf ((BTreeMap.values variants).foldl (rolledUp l (start / l * l)) rollup) =
        weightOf rollup + weightOf variants := by
    intro rollup
    rw [weightOf_rolledUp]
    exact congrArg _ (weight_closed l start variants none)
  unfold addToLevel
  dsimp only
  split
  · rename_i hlt
    rw [if_neg (by omega), Nat.add_zero]
  · rename_i hle
    rw [rollWeight, getElem?_entry]
    by_cases hl : l = level
    · subst hl
      rw [if_pos rfl, bind_some, getElem?_entry]
      by_cases hs : start / l * l = s
      · subst hs
        rw [if_pos rfl, if_pos ⟨rfl, rfl, by omega⟩, map_some, getD_some, hvalues]
        congr 1
        rw [rollWeight]
        cases hstarts : rollups[l]? with
        | none => simp
        | some starts =>
          cases hrow : starts[start / l * l]? with
          | none => simp [hrow]
          | some variants => simp [hrow]
      · rw [if_neg hs, if_neg (fun hall => hs hall.2.1), Nat.add_zero, rollWeight]
        cases rollups[l]? with
        | none => simp
        | some starts => rfl
    · rw [if_neg hl, if_neg (fun hall => hl hall.1), Nat.add_zero, rollWeight]

/-- A closed period adds what it counts to each hour and day it lies in, once. -/
theorem rollWeight_levels (start level s : Int) (variants : Variants) {levels : List Int}
    (hnodup : levels.Nodup) : rollWeight (levels.foldl (addToLevel b start variants) rollups) level s =
      rollWeight rollups level s +
        if level ∈ levels ∧ start / level * level = s ∧ b ≤ s then weightOf variants else 0 := by
  induction levels generalizing rollups with
  | nil => simp
  | cons l levels ih =>
    obtain ⟨hnew, hrest⟩ := nodup_cons.mp hnodup
    rw [foldl_cons, ih hrest, rollWeight_addToLevel]
    by_cases hl : l = level
    · subst hl
      simp [hnew]
    · have hl' : ¬ level = l := fun heq => hl heq.symm
      simp [hl, hl']

/-- Whether a closed period is one of the fold's own, and lies in an hour or a day. -/
def within (fold : PeriodFold) (level s : Int) (period : ClosedPeriod) : Bool :=
  fold.isBase period &&
    decide (level ∈ fold.rollupLevels period.start ∧ period.start / level * level = s)

/-- Whether a closed period is an hour or a day of some start. -/
def isRollup (fold : PeriodFold) (level s : Int) (period : ClosedPeriod) : Bool :=
  !fold.isBase period && decide (period.level = level ∧ period.start = s)

theorem nodup_rollupLevels (fold : PeriodFold) (at' : Int) : (fold.rollupLevels at').Nodup := by
  unfold PeriodFold.rollupLevels
  split
  · exact List.Nodup.filter _ (by decide)
  · exact nodup_nil

theorem rollWeight_rolling (fold : PeriodFold) {level s : Int} (hbs : b ≤ s) (starts : List Int) :
    rollWeight (starts.foldl (fold.rolling b) rollups) level s =
      rollWeight rollups level s +
        weightIn (fold.within level s) (starts.filterMap fold.closedBase) := by
  induction starts generalizing rollups with
  | nil => rfl
  | cons start rest ih =>
    rw [foldl_cons, ih]
    cases hopen : fold.openPeriods[start]? with
    | none =>
      have hbase : fold.closedBase start = none := by rw [closedBase, hopen]; rfl
      rw [filterMap_cons_none hbase, rolling, hopen]
    | some variants =>
      have hbase : fold.closedBase start =
          some ⟨fold.widthAt start, start, BTreeMap.values variants, fold.through⟩ := by
        rw [closedBase, hopen]
        rfl
      have hone : weightIn (fold.within level s)
          [⟨fold.widthAt start, start, BTreeMap.values variants, fold.through⟩] =
          if level ∈ fold.rollupLevels start ∧ start / level * level = s ∧ b ≤ s then
            weightOf variants else 0 := by
        have hclosed := weight_closed (fold.widthAt start) start variants fold.through
        by_cases hin : level ∈ fold.rollupLevels start ∧ start / level * level = s
        · simp [weightIn, within, isBase, hin, hbs, hclosed]
        · have hnot : ¬ (level ∈ fold.rollupLevels start ∧ start / level * level = s ∧ b ≤ s) :=
            fun hall => hin ⟨hall.1, hall.2.1⟩
          rw [if_neg hnot]
          simp [weightIn, within, isBase, hin]
      rw [filterMap_cons_some hbase, ← singleton_append, weightIn_append, hone,
        rolling, hopen, rollWeight_levels _ _ _ _ (fold.nodup_rollupLevels start)]
      omega

theorem nodup_endedBy (edge level : Int) (starts : BTreeMap Int Variants) :
    (endedBy edge level starts).Nodup :=
  (ExtTreeMap.nodup_keys).filter _

theorem rollWeight_closed (level s edge : Int) (through : Option Nat) :
    rollWeight rollups level s =
      rollWeight (rollups.map fun level starts => Table.dropAll starts (endedBy edge level starts))
        level s +
      weightIn (fun period => decide (period.level = level ∧ period.start = s))
        (closedRollups rollups through edge) := by
  -- the rows of other levels have nothing of this one, and of its starts only one counts
  have hrow : ∀ (l : Int) (starts : BTreeMap Int Variants),
      weightIn (fun period => decide (period.level = level ∧ period.start = s))
        ((endedBy edge l starts).filterMap fun start => starts[start]?.map fun variants =>
          ⟨l, start, BTreeMap.values variants, through⟩) =
      if l = level ∧ s ∈ endedBy edge l starts then (starts[s]?.map weightOf).getD 0 else 0 := by
    intro l starts
    rw [weightIn, sum_filterMap_filter]
    have hentry : ∀ start, ((starts[start]?.map fun variants =>
        (⟨l, start, BTreeMap.values variants, through⟩ : ClosedPeriod)).map fun period =>
          if decide (period.level = level ∧ period.start = s) then period.weight else 0).getD 0 =
        if start = s then (if l = level then (starts[start]?.map weightOf).getD 0 else 0)
        else 0 := by
      intro start
      cases hstart : starts[start]? with
      | none => simp
      | some variants =>
        by_cases hl : l = level
        · by_cases hs : start = s
          · simp [hl, hs, weight_closed]
          · simp [hs]
        · simp [hl]
    rw [map_congr_left fun start _ => hentry start,
      sum_ite_eq _ s (nodup_endedBy edge l starts)]
    by_cases hl : l = level
    · simp [hl]
    · simp [hl]
  have hall : weightIn (fun period => decide (period.level = level ∧ period.start = s))
      (closedRollups rollups through edge) =
      Table.tally (fun l starts =>
        if l = level ∧ s ∈ endedBy edge l starts then (starts[s]?.map weightOf).getD 0 else 0)
        rollups := by
    rw [closedRollups, Table.tally]
    induction rollups.toList with
    | nil => rfl
    | cons row rest ih =>
      rw [flatMap_cons, weightIn_append, hrow, ih, map_cons, sum_cons]
  rw [hall, Table.tally_single level (fun k starts hk => by simp [hk]), rollWeight,
    rollWeight, ExtTreeMap.getElem?_map]
  cases rollups[level]? with
  | none => rfl
  | some starts =>
    simp only [map_some, bind_some, getElem?_dropAll, getD_some]
    by_cases hended : s ∈ endedBy edge level starts
    · simp [hended]
    · simp [hended]

end Closing

end PeriodFold

end Aiwatcher.Periods
