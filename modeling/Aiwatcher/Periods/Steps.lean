import Aiwatcher.Periods.Fold

/-!
# Aiwatcher.Periods.Steps

The fold as a machine, and what each of its operations can do.

An event changes the runs, the clients' counts and, by placing figures, the open periods
(`foldEvent_eq`); reading its position doubts records (`reached_eq`); closing takes the open
periods that end by an edge, adds them to their hours and days, and takes the hours and days that
end by it (`close_cases`, `foldl_closePeriod`).
-/

namespace Aiwatcher.Periods

open Library List Std

/-! ## The machine -/

/-- What is done with a fold. -/
inductive Act where
  | read (event : RecordedEvent)
  | refilled (page : JournalPage) (until' : Nat)
  | widened (width : Int)
  | numbersPositions (contiguous : Bool)
  | wroteGap (gap : LogGap)
  /-- The period waiting longest is written. -/
  | wrote

/-- What is closed in a fold and was not in another. -/
def newlyClosed (before after : PeriodFold) : List ClosedPeriod :=
  after.closed.drop before.closed.length

/-- The fold as a machine, which gives out the periods it closes. -/
def folding (measures : Measures) : Machine PeriodFold Act ClosedPeriod where
  step fold act :=
    match act with
    | .read event =>
      let after := fold.apply measures event
      some (newlyClosed fold after, after)
    | .refilled page until' =>
      (fold.refill measures page until').map fun after => (newlyClosed fold after, after)
    | .widened width => some ([], fold.changeWidth width)
    | .numbersPositions contiguous => some ([], { fold with contiguous })
    | .wroteGap gap => some ([], fold.gapWritten gap)
    | .wrote =>
      match fold.closed with
      | [] => none
      | period :: _ => some ([], fold.written period.level period.start)

/-- What figures count: runs, a measurement's among them. -/
def Figures.weight (figures : Figures) : Nat := figures.runs + figures.measuredRuns

namespace PeriodFold

@[simp] theorem newlyClosed_of_append {before after : PeriodFold} {more : List ClosedPeriod}
    (h : after.closed = before.closed ++ more) : newlyClosed before after = more := by
  simp [newlyClosed, h]

variable {event : RecordedEvent} {fold : PeriodFold}

theorem closed_written {period : ClosedPeriod} {rest : List ClosedPeriod}
    (h : fold.closed = period :: rest) :
    fold.written period.level period.start = { fold with closed := rest } := by
  simp [written, h]

/-! ## One event -/

/-- Figures to be counted, and where. -/
structure Placement where
  project : Option Store.ProjectScope
  variantId : String
  endSeconds : Int
  run : Figures

def placeAll (fold : PeriodFold) (placements : List Placement) : PeriodFold :=
  placements.foldl (fun fold p => fold.place p.project p.variantId p.endSeconds p.run) fold

/-- The runs and the clients' counts of a fold replaced: what `place` neither reads nor
changes. -/
def withCounts (fold : PeriodFold) (runs : BTreeMap String InFlight)
    (runCounts : BTreeMap String RunCount) (forgotten : Option Int) : PeriodFold :=
  { fold with runs, runCounts, forgotten }

/-- The runs an event counts: the one it ends, where that is in flight or the event names a
variant. -/
def endedIn (fold : PeriodFold) (event : RecordedEvent) : List String :=
  if (endsRun event).isSome &&
      (fold.runs.contains event.metadata.runId || event.metadata.variantId.isSome) then
    [event.metadata.runId]
  else []

variable (measures : Measures)

@[simp] theorem weight_figuresOf (run : InFlight) (ok : Bool) (at' endSeconds : Int) :
    (figuresOf measures run ok at' endSeconds).weight = 1 := by
  unfold figuresOf Figures.weight
  split <;> rfl

@[simp] theorem weight_figuresUnseen (ok : Bool) (endSeconds : Int) :
    (figuresUnseen ok endSeconds).weight = 1 := rfl

theorem forgetOldest_eq (fold : PeriodFold) : ∃ runCounts forgotten,
    fold.forgetOldest = fold.withCounts fold.runs runCounts forgotten := by
  unfold forgetOldest
  split
  · split
    · exact ⟨_, _, rfl⟩
    · exact ⟨_, _, rfl⟩
  · exact ⟨_, _, rfl⟩

theorem runsNumbered_eq (fold : PeriodFold) (event : RecordedEvent) (number : Nat)
    (counted : Bool) : ∃ placements runCounts forgotten,
      fold.runsNumbered event number counted =
        (fold.placeAll placements).withCounts fold.runs runCounts forgotten ∧
      placements.length ≤ 1 ∧ ∀ p ∈ placements, p.run.weight = 0 := by
  have hnone : fold = (fold.placeAll []).withCounts fold.runs fold.runCounts fold.forgotten := rfl
  unfold runsNumbered
  split
  · split
    · exact ⟨[], _, _, hnone, by simp⟩
    · rename_i client variantId _ _ _
      have hlost : ∀ passed : Nat, Figures.weight { lostRuns := passed } = 0 := fun _ => rfl
      have hplaced : ∀ (after : PeriodFold) (passed : Nat) (runCounts : BTreeMap String RunCount)
          (forgotten : Option Int), after = fold.withCounts fold.runs runCounts forgotten →
          ∃ placements runCounts forgotten,
            (if 0 < passed then
              after.place event.metadata.project variantId
                (unixTimestamp event.metadata.occurredAt) { lostRuns := passed, complete := false }
            else after) = (fold.placeAll placements).withCounts fold.runs runCounts forgotten ∧
            placements.length ≤ 1 ∧ ∀ p ∈ placements, p.run.weight = 0 := by
        rintro after passed runCounts forgotten rfl
        split
        · exact ⟨[⟨event.metadata.project, variantId, unixTimestamp event.metadata.occurredAt,
            { lostRuns := passed, complete := false }⟩], runCounts, forgotten, rfl, by simp,
            by simp [hlost]⟩
        · exact ⟨[], runCounts, forgotten, rfl, by simp⟩
      dsimp only
      split
      · exact hplaced _ _ _ _ rfl
      · obtain ⟨runCounts, forgotten, hforget⟩ := fold.forgetOldest_eq
        rw [hforget]
        exact hplaced _ _ _ _ rfl
  · exact ⟨[], _, _, hnone, by simp⟩

theorem track_eq (fold : PeriodFold) (event : RecordedEvent) : ∃ runs,
    fold.track event = fold.withCounts runs fold.runCounts fold.forgotten := by
  unfold track
  split
  · split
    · exact ⟨_, rfl⟩
    · exact ⟨_, rfl⟩
  · exact ⟨_, rfl⟩

theorem track_of_ends (h : (endsRun event).isSome) : fold.track event = fold := by
  have hsome : (endsRun event).isNone = false := by
    rw [Option.isNone_eq_false_iff]
    exact h
  rw [track, hsome, Bool.and_false, Bool.false_and, if_neg Bool.false_ne_true]

theorem startNumbered_eq (fold : PeriodFold) (event : RecordedEvent) :
    ∃ placements runCounts forgotten,
      fold.startNumbered event =
        (fold.placeAll placements).withCounts fold.runs runCounts forgotten ∧
      placements.length ≤ 1 ∧ ∀ p ∈ placements, p.run.weight = 0 := by
  have hnone : fold = (fold.placeAll []).withCounts fold.runs fold.runCounts fold.forgotten := rfl
  unfold startNumbered
  split
  · split
    · exact fold.runsNumbered_eq event _ false
    · exact ⟨[], _, _, hnone, by simp⟩
  · exact ⟨[], _, _, hnone, by simp⟩

theorem ended_eq (fold : PeriodFold) {ok : Bool} (hends : endsRun event = some ok) :
    ∃ placements runs,
      ended measures fold event ok =
        (fold.placeAll placements).withCounts runs fold.runCounts fold.forgotten ∧
      placements.length ≤ 1 ∧
      (placements.map fun p => p.run.weight).sum = (fold.endedIn event).length := by
  unfold ended endedIn
  dsimp only
  rw [hends]
  cases hrun : fold.runs[event.metadata.runId]? with
  | some run =>
    have hin : fold.runs.contains event.metadata.runId = true := by
      rw [← ExtTreeMap.isSome_getElem?_eq_contains, hrun]
      rfl
    refine ⟨[⟨run.project, run.variantId, unixTimestamp event.metadata.occurredAt,
      figuresOf measures run ok (millis event.metadata.occurredAt)
        (unixTimestamp event.metadata.occurredAt)⟩], _, rfl, by simp, ?_⟩
    simp [hin]
  | none =>
    have hout : fold.runs.contains event.metadata.runId = false := by
      rw [← ExtTreeMap.isSome_getElem?_eq_contains, hrun]
      rfl
    cases hvariant : event.metadata.variantId with
    | some variantId =>
      refine ⟨[⟨event.metadata.project, variantId, unixTimestamp event.metadata.occurredAt,
        figuresUnseen ok (unixTimestamp event.metadata.occurredAt)⟩], _, rfl, by simp, ?_⟩
      simp
    | none => exact ⟨[], fold.runs, rfl, by simp, by simp [hout]⟩

theorem placeAll_withCounts (fold : PeriodFold) (placements : List Placement)
    (runs : BTreeMap String InFlight) (runCounts : BTreeMap String RunCount)
    (forgotten : Option Int) : (fold.withCounts runs runCounts forgotten).placeAll placements =
      (fold.placeAll placements).withCounts runs runCounts forgotten := by
  induction placements generalizing fold with
  | nil => rfl
  | cons p rest ih => exact ih (fold.place p.project p.variantId p.endSeconds p.run)

theorem startNumbered_of_ends (h : (endsRun event).isSome) : fold.startNumbered event = fold := by
  have hstarts : startsRun event = false := by
    unfold endsRun at h
    unfold startsRun
    split at h
    · simp [*]
    · simp [*]
    · cases h
  rw [startNumbered, hstarts, if_neg Bool.false_ne_true]

theorem endsRun_of_client (h : event.eventType.subject = .client) : endsRun event = none := by
  simp [endsRun, h]

theorem weights_eq_zero {placements : List Placement} (h : ∀ p ∈ placements, p.run.weight = 0) :
    (placements.map fun p => p.run.weight).sum = 0 := by
  rw [sum_eq_zero]
  simpa using h

/-- **What an event can do**: it changes the runs and the clients' counts, and places figures,
which count each run it ends once. -/
theorem foldEvent_eq (fold : PeriodFold) (event : RecordedEvent) :
    ∃ placements runs runCounts forgotten,
      foldEvent measures fold event =
        (fold.placeAll placements).withCounts runs runCounts forgotten ∧
      placements.length ≤ 1 ∧
      (placements.map fun p => p.run.weight).sum = (fold.endedIn event).length := by
  unfold foldEvent
  split
  · rename_i hclient
    have hnot : (fold.endedIn event).length = 0 := by simp [endedIn, endsRun_of_client hclient]
    split
    · rename_i runs _
      obtain ⟨placements, runCounts, forgotten, heq, hone, hzero⟩ :=
        fold.runsNumbered_eq event runs.toNat true
      exact ⟨placements, _, _, _, heq, hone, by rw [hnot, weights_eq_zero hzero]⟩
    · exact ⟨[], _, _, _, rfl, by simp, by rw [hnot]; rfl⟩
  · dsimp only
    cases hends : endsRun event with
    | none =>
      have hnot : (fold.endedIn event).length = 0 := by simp [endedIn, hends]
      obtain ⟨runs, htrack⟩ := fold.track_eq event
      obtain ⟨placements, runCounts, forgotten, heq, hone, hzero⟩ :=
        (fold.track event).startNumbered_eq event
      rw [heq, htrack, placeAll_withCounts]
      exact ⟨placements, _, _, _, rfl, hone, by rw [hnot, weights_eq_zero hzero]⟩
    | some ok =>
      have hsome : (endsRun event).isSome = true := by rw [hends]; rfl
      rw [track_of_ends hsome, startNumbered_of_ends hsome]
      -- the run an event ends is in flight before it is heard iff it is after
      have hheard : ∀ runs : BTreeMap String InFlight,
          runs = fold.runs.modify event.metadata.runId (fun run => heard measures run event) →
          endedIn { fold with runs } event = fold.endedIn event := by
        rintro runs rfl
        have hin : (fold.runs.modify event.metadata.runId
            (fun run => heard measures run event)).contains event.metadata.runId =
              fold.runs.contains event.metadata.runId := by
          rw [← ExtTreeMap.isSome_getElem?_eq_contains, Table.getElem?_modify, if_pos rfl,
            Option.isSome_map, ExtTreeMap.isSome_getElem?_eq_contains]
        rw [endedIn, hin, endedIn]
      obtain ⟨placements, runs, heq, hone, hsum⟩ := ended_eq measures
        (fold.withCounts (fold.runs.modify event.metadata.runId fun run =>
          heard measures run event) fold.runCounts fold.forgotten) hends
      refine ⟨placements, runs, fold.runCounts, fold.forgotten, ?_, hone, ?_⟩
      · exact heq.trans (congrArg (fun after =>
          after.withCounts runs fold.runCounts fold.forgotten)
          (fold.placeAll_withCounts placements _ fold.runCounts fold.forgotten))
      · exact hsum.trans (congrArg List.length (hheard _ rfl))

/-! ## A journal's page -/

/-- **What a page can do**: it may find a gap before it, its events are read, and the clock moves
once it is read whole. -/
theorem refill_cases {measures : Measures} {fold after : PeriodFold} {page : JournalPage}
    {until' : Nat} (h : fold.refill measures page until' = some after) :
    ∃ through read moved, fold.through = some through ∧
      read = page.events.foldl (refillOne measures (min page.last until'))
        (fold.beforePage through page) ∧
      moved = read.readThrough (some (max (min page.last until') (read.through.getD 0))) ∧
      (after = moved ∨ after = (moved.ticked page.clock).close) := by
  unfold refill at h
  dsimp only at h
  split at h
  · cases h
  · rename_i through hthrough
    split at h
    · cases h
    · obtain rfl := Option.some.inj h
      refine ⟨through, _, _, hthrough, rfl, rfl, ?_⟩
      split
      · exact .inr rfl
      · exact .inl rfl

/-! ## Closing -/

/-- An open period, closed. -/
def closedBase (fold : PeriodFold) (start : Int) : Option ClosedPeriod :=
  fold.openPeriods[start]?.map fun variants =>
    ⟨fold.widthAt start, start, BTreeMap.values variants, fold.through⟩

/-- The hours and days of a fold, once the open periods of some starts are added to them. -/
def rolling (fold : PeriodFold) (began : Int) (rollups : BTreeMap Int (BTreeMap Int Variants))
    (start : Int) : BTreeMap Int (BTreeMap Int Variants) :=
  match fold.openPeriods[start]? with
  | none => rollups
  | some variants => (fold.rollupLevels start).foldl (addToLevel began start variants) rollups

/-- An open hour or day, closed. -/
def closedRollups (rollups : BTreeMap Int (BTreeMap Int Variants)) (through : Option Nat)
    (edge : Int) : List ClosedPeriod :=
  rollups.toList.flatMap fun row => (endedBy edge row.1 row.2).filterMap fun start =>
    row.2[start]?.map fun variants => ⟨row.1, start, BTreeMap.values variants, through⟩

theorem foldl_closePeriod (began : Int) {starts : List Int} (hnodup : starts.Nodup)
    (fold : PeriodFold) : starts.foldl (closePeriod began) fold =
      { fold with
        openPeriods := Table.dropAll fold.openPeriods starts
        rollups := starts.foldl (fold.rolling began) fold.rollups
        closed := fold.closed ++ starts.filterMap fold.closedBase } := by
  induction starts generalizing fold with
  | nil => simp [Table.dropAll]
  | cons start rest ih =>
    obtain ⟨hnew, hrest⟩ := nodup_cons.mp hnodup
    rw [foldl_cons, ih hrest]
    cases hopen : fold.openPeriods[start]? with
    | none =>
      have hclose : closePeriod began fold start = fold := by rw [closePeriod, hopen]
      have hbase : fold.closedBase start = none := by rw [closedBase, hopen]; rfl
      have hroll : ∀ rollups, fold.rolling began rollups start = rollups := by
        intro rollups
        rw [rolling, hopen]
      rw [hclose, filterMap_cons_none hbase, foldl_cons, hroll]
      congr 1
      rw [Table.dropAll, Table.dropAll, foldl_cons, Table.erase_of_getElem?_eq_none hopen]
    | some variants =>
      -- the starts still to be closed are other ones, so nothing of them changes
      have hother : ∀ s ∈ rest, (fold.openPeriods.erase start)[s]? = fold.openPeriods[s]? := by
        intro s hs
        rw [Table.getElem?_erase, if_neg]
        rintro rfl
        exact hnew hs
      have hbase : ∀ s ∈ rest, (closePeriod began fold start).closedBase s =
          fold.closedBase s := by
        intro s hs
        have hs := hother s hs
        simp only [closePeriod, hopen, closedBase, hs]
        rfl
      have hroll : ∀ rollups, ∀ s ∈ rest,
          (closePeriod began fold start).rolling began rollups s =
            fold.rolling began rollups s := by
        intro rollups s hs
        have hs := hother s hs
        simp only [closePeriod, hopen, rolling, hs]
        rfl
      have hfirst : fold.closedBase start =
          some ⟨fold.widthAt start, start, BTreeMap.values variants, fold.through⟩ := by
        rw [closedBase, hopen]
        rfl
      rw [filterMap_cons_some hfirst, filterMap_congr hbase,
        foldl_ext _ _ _ fun rollups s hs => hroll rollups s hs, foldl_cons]
      simp only [closePeriod, hopen, rolling, Table.dropAll, foldl_cons,
        append_assoc, cons_append, nil_append]

/-- What a fold closes up to an edge: its periods, then their hours and days. -/
def closedAt (fold : PeriodFold) (began edge : Int) : List ClosedPeriod :=
  (fold.closing edge).filterMap fold.closedBase ++
    closedRollups ((fold.closing edge).foldl (fold.rolling began) fold.rollups) fold.through edge

/-- A fold closed up to an edge. -/
def closeAt (fold : PeriodFold) (began edge : Int) : PeriodFold :=
  { fold with
    openPeriods := Table.dropAll fold.openPeriods (fold.closing edge)
    rollups := ((fold.closing edge).foldl (fold.rolling began) fold.rollups).map
      fun level starts => Table.dropAll starts (endedBy edge level starts)
    closed := fold.closed ++ fold.closedAt began edge
    closedThrough := some edge
    missedSpans := fold.missedSpans.filter fun span => edge ≤ span.2 + day }

theorem nodup_closing (fold : PeriodFold) (edge : Int) : (fold.closing edge).Nodup :=
  (ExtTreeMap.nodup_keys).filter _

theorem close_eq (fold : PeriodFold) : fold.close = match fold.clock, fold.began with
    | some clock, some began =>
      if fold.floorAt (clock - fold.graceAt clock) ≤ fold.closedThrough.getD began then fold
      else fold.closeAt began (fold.floorAt (clock - fold.graceAt clock))
    | _, _ => fold := by
  cases hclock : fold.clock with
  | none => simp [close, hclock]
  | some clock =>
    cases hbegan : fold.began with
    | none => simp [close, hclock, hbegan]
    | some began =>
      simp only [close, hclock, hbegan, foldl_closePeriod began (fold.nodup_closing _),
        closeRollups, closeAt, closedAt, closedRollups, append_assoc]

/-- **What closing does**: nothing, or it takes the open periods and the hours and days that end
by an edge. -/
theorem close_cases (fold : PeriodFold) :
    fold.close = fold ∨
    ∃ clock began edge, fold.clock = some clock ∧ fold.began = some began ∧
      edge = fold.floorAt (clock - fold.graceAt clock) ∧ fold.closedThrough.getD began < edge ∧
      fold.close = fold.closeAt began edge := by
  have hclose := fold.close_eq
  split at hclose
  · rename_i clock began hclock hbegan
    split at hclose
    · exact .inl hclose
    · exact .inr ⟨clock, began, _, hclock, hbegan, rfl, by omega, hclose⟩
  · exact .inl hclose

/-! ## Positions -/

theorem through_close (fold : PeriodFold) : fold.close.through = fold.through := by
  rcases fold.close_cases with hsame | ⟨_, _, _, _, _, _, _, hclose⟩
  · rw [hsame]
  · rw [hclose]
    rfl

theorem through_placeAll (fold : PeriodFold) (placements : List Placement) :
    (fold.placeAll placements).through = fold.through := by
  induction placements generalizing fold with
  | nil => rfl
  | cons p rest ih => exact ih (fold.place p.project p.variantId p.endSeconds p.run)

theorem through_foldEvent (fold : PeriodFold) (event : RecordedEvent) :
    (foldEvent measures fold event).through = fold.through := by
  obtain ⟨placements, runs, runCounts, forgotten, hfold, -⟩ := foldEvent_eq measures fold event
  rw [hfold]
  exact through_placeAll fold placements

theorem through_apply (fold : PeriodFold) (event : RecordedEvent) :
    (fold.apply measures event).through =
      if fold.through.any fun through => event.metadata.globalPosition.toNat ≤ through then
        fold.through
      else some event.metadata.globalPosition.toNat := by
  unfold apply
  dsimp only
  split
  · rfl
  · rw [through_close]
    split
    · rfl
    · exact through_foldEvent _ _ _

end PeriodFold

/-! ## Events for the examples -/

/-- Measures of payloads without a number. -/
def plainMeasures : Measures :=
  ⟨⟨fun n => n, fun n => n.toUInt64, fun _ => none, fun _ => 0⟩, fun _ => 0, fun _ => 0,
    fun _ => ""⟩

/-- An event of a run naming a variant. -/
def observed (eventType : EventType) (runId : String) (position : UInt64) (seconds : Int) :
    RecordedEvent where
  eventType := eventType
  data := .object []
  metadata := ⟨"message", "run:" ++ runId, position, 1, 1, none, "", "", runId, none, none, none,
    none, some "v1", none, none, none, none, none, "", 1, ⟨"service", none, "rust", none⟩, seconds
    * 1000000000, seconds * 1000000000⟩

end Aiwatcher.Periods
