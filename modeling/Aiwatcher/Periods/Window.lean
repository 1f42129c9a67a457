import Aiwatcher.Periods.Ledger

/-!
# Aiwatcher.Periods.Window

Periods cut time exactly, whatever the widths were changed to and whenever, and a window reads
each period from its start on once: from the store up to where that holds every period, and from
the fold past it (`periods_cut_time`).
-/

namespace Aiwatcher.Periods

open Library List

namespace PeriodFold

variable {fold : PeriodFold} {released : List ClosedPeriod}

/-! ## Where the store holds every period -/

theorem foldl_min_le (xs : List Int) (x : Int) :
    xs.foldl min x ≤ x ∧ (∀ y ∈ xs, xs.foldl min x ≤ y) ∧
      (xs.foldl min x = x ∨ xs.foldl min x ∈ xs) := by
  induction xs generalizing x with
  | nil => simp
  | cons y ys ih =>
    obtain ⟨hx, hys, hor⟩ := ih (min x y)
    rw [foldl_cons]
    refine ⟨by omega, ?_, ?_⟩
    · intro z hz
      rcases mem_cons.mp hz with rfl | hz
      · omega
      · exact hys z hz
    · rcases hor with heq | hmem
      · rcases min_choice x y with hmin | hmin
        · exact .inl (heq.trans hmin)
        · exact .inr (by rw [heq, hmin]; exact mem_cons_self)
      · exact .inr (mem_cons_of_mem _ hmem)

theorem isBase_iff {period : ClosedPeriod} :
    fold.isBase period = true ↔ period.level = fold.widthAt period.start := by
  simp [isBase]

theorem Traced.baseWritten (h : Traced released fold) {c : Int}
    (hc : fold.closedThrough = some c) : ∃ w, fold.baseWritten = some w ∧
      fold.floorAt w = w ∧ w ≤ c ∧
      ∀ period ∈ released, fold.isBase period = true →
        (period ∈ fold.closed → w ≤ period.start) ∧
        (period ∉ fold.closed → period.start + period.level ≤ w) := by
  obtain ⟨hle, hall, hor⟩ :=
    foldl_min_le ((fold.closed.filter fold.isBase).map ClosedPeriod.start) c
  have hwaits : ∀ period ∈ fold.closed, fold.isBase period = true →
      ((fold.closed.filter fold.isBase).map ClosedPeriod.start).foldl min c ≤ period.start :=
    fun period hperiod hbase =>
      hall _ (mem_map.mpr ⟨period, mem_filter.mpr ⟨hperiod, hbase⟩, rfl⟩)
  refine ⟨_, by rw [PeriodFold.baseWritten, hc]; rfl, ?_, hle, ?_⟩
  · rcases hor with heq | hmem
    · rw [heq]
      exact (h.sound.past c hc).1
    · obtain ⟨first, hfirst, heq⟩ := mem_map.mp hmem
      obtain ⟨hqueued, hbase⟩ := mem_filter.mp hfirst
      rw [← heq]
      exact (h.closed first (h.waiting.subset hqueued)).base hbase
  · intro period hperiod hbase
    refine ⟨fun hqueued => hwaits period hqueued hbase, fun hwritten => ?_⟩
    obtain ⟨hpos, ⟨b, c', -, hc', -, hend⟩, hfloor⟩ := h.closed period hperiod
    obtain rfl : c' = c := by simpa [hc'] using hc
    rcases hor with heq | hmem
    · rw [heq]
      exact hend
    · -- the first that waits was closed after what is written
      obtain ⟨first, hfirst, heq⟩ := mem_map.mp hmem
      obtain ⟨hqueued, hfirstBase⟩ := mem_filter.mp hfirst
      obtain ⟨before, rfl⟩ := h.waiting
      have hbefore : period ∈ before :=
        (mem_append.mp hperiod).resolve_right hwritten
      have hordered := h.ordered
      rw [filter_append, pairwise_append] at hordered
      have hlt := hordered.2.2 period (mem_filter.mpr ⟨hbefore, hbase⟩) first hfirst
      have hfirstFloor := (h.closed first (mem_append_right _ hqueued)).base hfirstBase
      have hstop := h.sound.cuts.add_le_of_lt hfirstFloor hlt
      have hstart : floorOf fold.widthAt period.start = period.start := hfloor hbase
      rw [hstart, ← isBase_iff.mp hbase] at hstop
      rw [← heq]
      exact hstop

theorem rollupWritten_le {level w : Int} (h : fold.rollupWritten level = some w) :
    (∃ c, fold.closedThrough = some c ∧ w ≤ c / level * level) ∧
      ∀ period ∈ fold.closed, period.level = level → fold.isBase period = false →
        w ≤ period.start := by
  obtain ⟨c, hc, rfl⟩ := Option.map_eq_some_iff.mp h
  obtain ⟨hle, hall, -⟩ := foldl_min_le ((fold.closed.filter fun period =>
    period.level == level && !fold.isBase period).map ClosedPeriod.start) (c / level * level)
  refine ⟨⟨c, hc, hle⟩, fun period hperiod hlevel hnot => hall _ ?_⟩
  exact mem_map.mpr ⟨period, mem_filter.mpr ⟨hperiod, by simp [hlevel, hnot]⟩, rfl⟩

/-! ## The plan -/

/-- A chunk the store holds: a period of the fold's own, or an hour or a day that is written. -/
def IsStored (fold : PeriodFold) (chunk : Int × Int) : Prop :=
  chunk.1 = fold.widthAt chunk.2 ∨
    (chunk.1 = hour ∨ chunk.1 = day) ∧
      ∃ w, fold.rollupWritten chunk.1 = some w ∧ chunk.2 + chunk.1 ≤ w

theorem Sound.mem_levelsAt (h : fold.Sound) {level at' : Int} (hlevel : level ∈ fold.levelsAt at') :
    level = fold.widthAt at' ∨ level = hour ∨ level = day := by
  rcases mem_cons.mp hlevel with rfl | hroll
  · exact .inl rfl
  · exact .inr (h.rollupLevels hroll).1

theorem Sound.levelOf (h : fold.Sound) {until' : Int} (huntil : fold.floorAt until' = until')
    (began start : Int) (sliced : Bool) (narrowerThan : Int) {at' : Int}
    (hat : fold.floorAt at' = at') (hlt : at' < until') :
    0 < fold.levelOf began start until' sliced narrowerThan at' ∧
      at' + fold.levelOf began start until' sliced narrowerThan at' ≤ until' ∧
      fold.floorAt (at' + fold.levelOf began start until' sliced narrowerThan at') =
        at' + fold.levelOf began start until' sliced narrowerThan at' ∧
      fold.IsStored (fold.levelOf began start until' sliced narrowerThan at', at') := by
  have hfloor : floorOf fold.widthAt at' = at' := hat
  have hbase : 0 < fold.widthAt at' ∧ at' + fold.widthAt at' ≤ until' ∧
      fold.floorAt (at' + fold.widthAt at') = at' + fold.widthAt at' ∧
      fold.IsStored (fold.widthAt at', at') := by
    have hend := h.cuts.add_le_of_lt huntil hlt
    have hnext := h.cuts.floorOf_add_width at'
    rw [hfloor] at hend hnext
    exact ⟨h.cuts.pos at', hend, hnext, .inl rfl⟩
  unfold PeriodFold.levelOf
  split
  · exact hbase
  · generalize hfind : List.find? _ _ = found
    cases found with
    | none => exact hbase
    | some level =>
      rw [Option.getD_some]
      have hcond := find?_some hfind
      have hmem := mem_of_find?_eq_some hfind
      rw [mem_filter, mem_reverse] at hmem
      simp only [Bool.and_eq_true, Bool.or_eq_true, decide_eq_true_eq, Option.any_eq_true] at hcond
      obtain ⟨⟨⟨hmod, -⟩, hend⟩, hwritten⟩ := hcond
      rcases h.mem_levelsAt hmem.1 with rfl | hlevel
      · exact hbase
      · have hdvd : hour ∣ level := by
          rcases hlevel with rfl | rfl
          · exact Int.dvd_refl _
          · exact hour_dvd_day
        have hstart : level ∣ at' := Int.dvd_of_emod_eq_zero hmod
        refine ⟨level_pos hlevel, hend, ?_, ?_⟩
        · exact h.cuts.floorOf_of_dvd
            (Int.dvd_trans hdvd (Int.dvd_add hstart (Int.dvd_refl level)))
        · rcases hwritten with heq | ⟨w, hw, hle⟩
          · exact .inl heq
          · exact .inr ⟨hlevel, w, hw, hle⟩

/-- Chunks whose ends are good follow one another up to the end of what is asked for. -/
theorem chunks_spec {levelOf : Int → Int} {until' : Int} (good : Int → Prop)
    {stored : Int × Int → Prop}
    (hlevel : ∀ at', good at' → at' < until' → 0 < levelOf at' ∧ at' + levelOf at' ≤ until' ∧
      good (at' + levelOf at') ∧ stored (levelOf at', at'))
    {fuel : Nat} {at' : Int} (hgood : good at') (hle : at' ≤ until')
    (hfuel : until' - at' ≤ fuel) :
    Tiles at' (chunks levelOf until' fuel at') until' ∧
      ∀ chunk ∈ chunks levelOf until' fuel at',
        good chunk.2 ∧ good (chunk.2 + chunk.1) ∧ stored chunk := by
  induction fuel generalizing at' with
  | zero =>
    have heq : at' = until' := by omega
    exact ⟨heq, by simp [chunks]⟩
  | succ fuel ih =>
    rw [chunks]
    split
    · rename_i hlt
      obtain ⟨hpos, hend, hnext, hstored⟩ := hlevel at' hgood hlt
      obtain ⟨htiles, hall⟩ := ih hnext hend (by omega)
      refine ⟨⟨rfl, hpos, htiles⟩, ?_⟩
      intro chunk hchunk
      rcases mem_cons.mp hchunk with rfl | hchunk
      · exact ⟨hgood, hnext, hstored⟩
      · exact hall chunk hchunk
    · have heq : at' = until' := by omega
      exact ⟨heq, by simp⟩

/-- A plan from a floor to a floor covers what lies between, or nothing where that is nothing. -/
theorem Sound.plan (h : fold.Sound) {b start until' : Int} (hb : fold.began = some b)
    (hstart : fold.floorAt start = start) (huntil : fold.floorAt until' = until')
    (sliced : Bool) (narrowerThan : Int) :
    Tiles start (fold.plan start until' sliced narrowerThan) (max start until') ∧
      ∀ chunk ∈ fold.plan start until' sliced narrowerThan,
        fold.floorAt chunk.2 = chunk.2 ∧
          fold.floorAt (chunk.2 + chunk.1) = chunk.2 + chunk.1 ∧ fold.IsStored chunk := by
  have hplan : fold.plan start until' sliced narrowerThan =
      chunks (fold.levelOf b start until' sliced narrowerThan) until' (until' - start).toNat
        start := by
    rw [PeriodFold.plan, hb]
  rw [hplan]
  rcases Int.lt_or_le until' start with hlt | hle
  · have hfuel : (until' - start).toNat = 0 := by omega
    rw [hfuel, chunks]
    exact ⟨by rw [Tiles]; omega, by simp⟩
  · rw [Int.max_eq_right hle]
    exact chunks_spec (fun at' => fold.floorAt at' = at')
      (fun at' hat hlt => h.levelOf huntil b start sliced narrowerThan hat hlt) hstart hle
      (by omega)

/-! ## The window -/

/-- What a window reads, once each: chunks of the store that follow one another from its edge to
a stop, each of them written, and from the stop on the periods the fold still holds. -/
structure ReadsOnce (fold : PeriodFold) (released : List ClosedPeriod)
    (project : Option Store.ProjectScope) (variantIds : List String) (window : Window)
    (stop : Int) : Prop where
  edge : ∃ b, fold.began = some b ∧ window.edge = max (fold.floorAt window.since) b ∧
    fold.floorAt window.edge = window.edge
  floor_stop : fold.floorAt stop = stop
  tiles : Tiles window.edge window.stored stop
  once : ∀ t, window.stored.countP (covers t) = if window.edge ≤ t ∧ t < stop then 1 else 0
  /-- A chunk is of whole periods, and neither waits to be written nor is open. -/
  stored : ∀ chunk ∈ window.stored, fold.floorAt chunk.2 = chunk.2 ∧
    fold.floorAt (chunk.2 + chunk.1) = chunk.2 + chunk.1 ∧
    (∀ period ∈ fold.closed, (period.level, period.start) ≠ chunk) ∧
    ¬ Rolls fold.rollups chunk.1 chunk.2
  /-- A period closed before the stop is written, and lies in one chunk. -/
  written : ∀ period ∈ released, fold.isBase period = true → window.edge ≤ period.start →
    (period ∈ fold.closed ↔ stop ≤ period.start) ∧
    (period.start < stop → ∃ chunk ∈ window.stored,
      chunk.2 ≤ period.start ∧ period.start + period.level ≤ chunk.2 + chunk.1)
  opened : ∀ start, fold.Opens start → window.edge ≤ start → stop ≤ start
  held : ∀ record, record ∈ window.held ↔
    (record.project = project ∧ record.variantId ∈ variantIds) ∧
      ((∃ period ∈ fold.closed, fold.isBase period = true ∧ stop ≤ period.start ∧
          record ∈ period.records) ∨
        ∃ start variants, fold.openPeriods[start]? = some variants ∧ stop ≤ start ∧
          record ∈ BTreeMap.values variants)

theorem Traced.storedTo (h : Traced released fold) {b : Int} (hb : fold.began = some b) :
    ∃ w, fold.baseWritten.or fold.began = some w ∧ fold.floorAt w = w ∧
      (∀ c, fold.closedThrough = some c → w ≤ c) ∧
      (fold.closedThrough = none → w = b) ∧
      ∀ period ∈ released, fold.isBase period = true →
        (period ∈ fold.closed → w ≤ period.start) ∧
        (period ∉ fold.closed → period.start + period.level ≤ w) := by
  cases hc : fold.closedThrough with
  | none =>
    have hnone : fold.baseWritten = none := by rw [PeriodFold.baseWritten, hc]; rfl
    refine ⟨b, by rw [hnone, hb]; rfl, h.sound.began b hb, by simp, fun _ => rfl, ?_⟩
    intro period hperiod
    obtain ⟨-, ⟨_, c, -, hc', -⟩, -⟩ := h.closed period hperiod
    exact absurd (hc.symm.trans hc') (by simp)
  | some c =>
    obtain ⟨w, hw, hfloor, hle, hall⟩ := h.baseWritten hc
    refine ⟨w, by rw [hw]; rfl, hfloor, ?_, by simp, hall⟩
    rintro _ ⟨⟩
    exact hle

theorem Traced.stored (h : Traced released fold) {w : Int}
    (hwaiting : ∀ period ∈ fold.closed, fold.isBase period = true → w ≤ period.start)
    {chunk : Int × Int} (hstored : fold.IsStored chunk) (hpos : 0 < chunk.1)
    (hend : chunk.2 + chunk.1 ≤ w) :
    (∀ period ∈ fold.closed, (period.level, period.start) ≠ chunk) ∧
      ¬ Rolls fold.rollups chunk.1 chunk.2 := by
  constructor
  · rintro period hperiod rfl
    cases hbase : fold.isBase period with
    | true =>
      have hle := hwaiting period hperiod hbase
      dsimp only at hend hpos
      omega
    | false =>
      rcases hstored with hwidth | ⟨-, w', hw', hle⟩
      · exact absurd (hbase.symm.trans (isBase_iff.mpr hwidth)) (by simp)
      · have hlater := (rollupWritten_le hw').2 period hperiod rfl hbase
        dsimp only at hle hpos
        omega
  · intro hroll
    obtain ⟨hlevel, -, hne, b, c, -, hc, -, -, hlt⟩ := h.sound.rolled _ _ hroll
    rcases hstored with hwidth | ⟨-, w', hw', hle⟩
    · exact hne hwidth
    · obtain ⟨⟨c', hc', hle'⟩, -⟩ := rollupWritten_le hw'
      obtain rfl : c' = c := by simpa [hc'] using hc
      have hfloor := Int.ediv_mul_le c' (Int.ne_of_gt (level_pos hlevel))
      omega

/-- **Window rule**: a window reads each period from its edge on once. -/
theorem Traced.window (h : Traced released fold) {b : Int} (hb : fold.began = some b)
    (project : Option Store.ProjectScope) (variantIds : List String) (since : Int) :
    ∃ stop, ReadsOnce fold released project variantIds (fold.window project variantIds since)
      stop := by
  obtain ⟨w, hw, hfloor, hpast, hnone, hall⟩ := h.storedTo hb
  have hedge : fold.floorAt (max (fold.floorAt since) b) = max (fold.floorAt since) b := by
    rcases max_choice (fold.floorAt since) b with hmax | hmax
    · rw [hmax]
      exact h.sound.cuts.floorOf_floorOf since
    · rw [hmax]
      exact h.sound.began b hb
  obtain ⟨htiles, hchunks⟩ := h.sound.plan hb hedge hfloor
    (decide (max (fold.floorAt since) b < since)) i64Max
  rw [hb] at hw
  refine ⟨max (max (fold.floorAt since) b) w, ?_⟩
  simp only [PeriodFold.window, hb, hw]
  refine ⟨⟨b, hb, rfl, hedge⟩, ?_, htiles, htiles.countP_covers, ?_, ?_, ?_, ?_⟩
  · rcases max_choice (max (fold.floorAt since) b) w with hmax | hmax
    · rw [hmax]
      exact hedge
    · rw [hmax]
      exact hfloor
  · intro chunk hchunk
    obtain ⟨hfloor, hend, hstored⟩ := hchunks chunk hchunk
    obtain ⟨hpos, hle, hstop⟩ := htiles.bounds_of_mem hchunk
    exact ⟨hfloor, hend, h.stored (fun period hperiod hbase =>
      (hall period (h.waiting.subset hperiod) hbase).1 hperiod) hstored hpos (by omega)⟩
  · intro period hperiod hbase hle
    obtain ⟨hqueued, hwritten⟩ := hall period hperiod hbase
    obtain ⟨hpos, -, hperiodFloor⟩ := h.closed period hperiod
    have hstays : period ∈ fold.closed ↔ max (max (fold.floorAt since) b) w ≤ period.start := by
      constructor
      · intro hmem
        have hwle := hqueued hmem
        dsimp only at hle
        omega
      · intro hstop
        by_contra hnot
        have hend := hwritten hnot
        omega
    refine ⟨hstays, fun hlt => ?_⟩
    obtain ⟨chunk, hchunk, hcle, hclt⟩ := htiles.exists_mem hle hlt
    have hend := h.sound.cuts.add_le_of_lt (hchunks chunk hchunk).2.1 hclt
    have hstart : floorOf fold.widthAt period.start = period.start := hperiodFloor hbase
    rw [hstart, ← isBase_iff.mp hbase] at hend
    exact ⟨chunk, hchunk, hcle, hend⟩
  · intro start hopen hle
    obtain ⟨-, hfront, b', hb₂, hbs⟩ := h.sound.opened start hopen
    obtain rfl : b' = b := by simpa [hb₂] using hb
    have hwle : w ≤ start := by
      cases hc : fold.closedThrough with
      | none => rw [hnone hc]; exact hbs
      | some c =>
        have hwc := hpast c hc
        have hcs := hfront c hc
        omega
    dsimp only at hle
    omega
  · intro record
    simp only [mem_filter, mem_append, mem_flatMap, Bool.and_eq_true,
      decide_eq_true_eq, Std.ExtTreeMap.mem_toList_iff_getElem?_eq_some, Prod.exists]
    grind

/-- **Periods cut time exactly.**  In every fold reached each instant lies in one period; a width
configured anew leaves the periods up to a switch and all the fold has opened and closed as they
were, and both widths have a period begin there; and a window reads each period from its edge on
once, from the store or from the fold. -/
theorem periods_cut_time (measures : Measures) {width : Int} (hpos : 0 < width)
    (hdvd : width ∣ hour) (acts : List Act) (hacts : ∀ act ∈ acts, Act.Admitted act) :
    let fold := (folding measures).last (new width) acts
    let released := (folding measures).emitted (new width) acts
    (∀ t, ∃! start, fold.floorAt start = start ∧ start ≤ t ∧ t < start + fold.widthAt start) ∧
    (∀ t, fold.floorAt (fold.floorAt t + fold.widthAt t) = fold.floorAt t + fold.widthAt t) ∧
    (∀ anew, 0 < anew → anew ∣ hour →
      fold.changeWidth anew = fold ∨
      (fold.began = none ∧ ∀ t, (fold.changeWidth anew).widthAt t = anew) ∨
      ∃ switch, ChangesAt fold (fold.changeWidth anew) anew switch) ∧
    ∀ b, fold.began = some b → ∀ project variantIds since,
      ∃ stop, ReadsOnce fold released project variantIds (fold.window project variantIds since)
        stop := by
  intro fold released
  have htraced : Traced released fold := (ledger_run measures hpos hdvd hacts).traced
  have hcuts := htraced.sound.cuts
  refine ⟨hcuts.existsUnique_period, hcuts.floorOf_add_width, ?_, ?_⟩
  · intro anew hanew hpart
    rcases changeWidth_cases htraced.sound hanew hpart with
      ⟨-, heq⟩ | ⟨hb, heq⟩ | ⟨switch, -, -, hchange⟩
    · exact .inl heq
    · refine .inr (.inl ⟨hb, fun t => ?_⟩)
      rw [heq]
      rfl
    · exact .inr (.inr ⟨switch, hchange⟩)
  · intro b hb project variantIds since
    exact htraced.window hb project variantIds since

/-- A run of two hours, read in quarters of an hour and then in periods of five minutes. -/
def twoHours : List Act :=
  [.read (observed .runStarted "run-1" 1 7200), .widened 300,
    .read (observed .runCompleted "run-1" 2 15000)]

theorem periods_cut_time_twoHours :
    let fold := (folding plainMeasures).last (new 900) twoHours
    ∃ stop, ReadsOnce fold ((folding plainMeasures).emitted (new 900) twoHours) none ["v1"]
      (fold.window none ["v1"] 8000) stop := by
  have hadmitted : ∀ act ∈ twoHours, Act.Admitted act := by
    intro act hact
    simp only [twoHours, List.mem_cons, List.not_mem_nil, or_false] at hact
    rcases hact with rfl | rfl | rfl
    · trivial
    · exact ⟨by decide, by decide⟩
    · trivial
  have hbegan : ((folding plainMeasures).last (new 900) twoHours).began = some 7200 := by
    decide +kernel
  exact (periods_cut_time plainMeasures (by decide) (by decide) twoHours hadmitted).2.2.2 7200
    hbegan none ["v1"] 8000

end PeriodFold

end Aiwatcher.Periods
