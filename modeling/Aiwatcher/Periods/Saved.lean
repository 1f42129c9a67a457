import Aiwatcher.Periods.Ledger

/-!
# Aiwatcher.Periods.Saved

The fold's state as it is saved, and a fold that is loaded from it (`period_fold.rs`, `periods.rs`).
A restart changes nothing: `resuming_changes_nothing`.

A document is what its reader makes of it: a field that is left out reads as its default.
-/

namespace Aiwatcher.Periods

open Library List Option Machine

/-! ## What is saved -/

/-- A fold's state as it is saved.  What is closed is not saved, since a state is saved only once
that is written; nor is whether the log numbers every event, which is the log's to say. -/
structure SavedFold where
  /-- None in a state saved before widths had a history. -/
  widths : Option Widths
  /-- The one width such a state had. -/
  width : Int := 0
  through : Option Nat
  clock : Option Int
  began : Option Int
  closedThrough : Option Int
  gapFrom : Option Int
  runs : BTreeMap String InFlight
  runCounts : BTreeMap String RunCount
  firstRead : Option Int
  forgotten : Option Int
  openPeriods : BTreeMap Int Variants
  rollups : BTreeMap Int (BTreeMap Int Variants)
  missed : List LogGap
  missedSpans : List (Int × Int)

/-- A state that is loaded; one saved before widths had a history reads as one width for ever. -/
def SavedFold.settled (saved : SavedFold) : PeriodFold where
  widths := saved.widths.getD ⟨max saved.width 1, []⟩
  through := saved.through
  clock := saved.clock
  began := saved.began
  closedThrough := saved.closedThrough
  gapFrom := saved.gapFrom
  runs := saved.runs
  runCounts := saved.runCounts
  firstRead := saved.firstRead
  forgotten := saved.forgotten
  openPeriods := saved.openPeriods
  rollups := saved.rollups
  missed := saved.missed
  missedSpans := saved.missedSpans

namespace PeriodFold

/-- The state a flush saves: none of a fold that has read nothing, or still waits to write. -/
def saved (fold : PeriodFold) : Option SavedFold :=
  if fold.closed.isEmpty then
    fold.through.map fun through =>
      { widths := some fold.widths
        through := some through
        clock := fold.clock
        began := fold.began
        closedThrough := fold.closedThrough
        gapFrom := fold.gapFrom
        runs := fold.runs
        runCounts := fold.runCounts
        firstRead := fold.firstRead
        forgotten := fold.forgotten
        openPeriods := fold.openPeriods
        rollups := fold.rollups
        missed := fold.missed
        missedSpans := fold.missedSpans }
  else none

/-- A flush that goes through: the gaps and what is closed are written. -/
def flushed (fold : PeriodFold) : PeriodFold := { fold with closed := [], missed := [] }

/-- The fold a process starts with, of a store that holds no period: the state saved, or a new
one. -/
def loaded (width : Int) (contiguous : Bool) (saved : Option SavedFold) : PeriodFold :=
  match saved with
  | some saved => { saved.settled.changeWidth width with contiguous }
  | none => { new width with contiguous }

/-! ## What was written -/

/-- A fold that had still to write what it has written. -/
def owing (fold : PeriodFold) (closed : List ClosedPeriod) (missed : List LogGap) : PeriodFold :=
  { fold with closed := closed ++ fold.closed, missed := missed ++ fold.missed }

variable (fold : PeriodFold) (closed : List ClosedPeriod) (missed : List LogGap)

theorem ite_owing (p : Prop) [Decidable p] (fold other : PeriodFold) :
    (if p then fold else other).owing closed missed =
      if p then fold.owing closed missed else other.owing closed missed :=
  apply_ite (fun after : PeriodFold => after.owing closed missed) p fold other

theorem forgetOldest_owing :
    (fold.owing closed missed).forgetOldest = fold.forgetOldest.owing closed missed := by
  by_cases hfull : mostRunCounts ≤ fold.runCounts.size
  · cases holdest : oldest fold.runCounts <;> simp [forgetOldest, owing, hfull, holdest]
  · simp [forgetOldest, owing, hfull]

variable (event : RecordedEvent)

theorem runsNumbered_owing (number : Nat) (counted : Bool) :
    (fold.owing closed missed).runsNumbered event number counted =
      (fold.runsNumbered event number counted).owing closed missed := by
  unfold runsNumbered
  cases event.metadata.source.client with
  | none => rfl
  | some client =>
    cases event.metadata.variantId with
    | none => rfl
    | some variantId =>
      dsimp only
      generalize s!"{keyOf event.metadata.project} {client} {variantId}" = key
      have hplaced : ∀ (after : PeriodFold) (passed : Nat),
          (if 0 < passed then
            (after.owing closed missed).place event.metadata.project variantId
              (unixTimestamp event.metadata.occurredAt)
              { lostRuns := passed, complete := false }
          else after.owing closed missed) =
          (if 0 < passed then
            after.place event.metadata.project variantId
              (unixTimestamp event.metadata.occurredAt)
              { lostRuns := passed, complete := false }
          else after).owing closed missed := by
        intro after passed
        split <;> rfl
      split
      · rfl
      · cases hcount : fold.runCounts[key]? with
        | some count =>
          have hcount' : (fold.owing closed missed).runCounts[key]? = some count := hcount
          simp only [hcount']
          exact hplaced { fold with runCounts := fold.runCounts.insert key _ } _
        | none =>
          have hcount' : (fold.owing closed missed).runCounts[key]? = none := hcount
          simp only [hcount', forgetOldest_owing]
          exact hplaced { fold.forgetOldest with
            runCounts := fold.forgetOldest.runCounts.insert key _ } _

theorem track_owing :
    (fold.owing closed missed).track event = (fold.track event).owing closed missed := by
  unfold track
  cases event.metadata.variantId with
  | none => simp
  | some variantId =>
    rw [ite_owing]
    rfl

theorem startNumbered_owing :
    (fold.owing closed missed).startNumbered event =
      (fold.startNumbered event).owing closed missed := by
  unfold startNumbered
  split
  · split
    · exact runsNumbered_owing fold closed missed event _ false
    · rfl
  · rfl

variable (measures : Measures)

theorem ended_owing (event : RecordedEvent) (ok : Bool) :
    ended measures (fold.owing closed missed) event ok =
      (ended measures fold event ok).owing closed missed := by
  unfold ended
  dsimp only
  cases hrun : fold.runs[event.metadata.runId]? with
  | some run =>
    have hrun' : (fold.owing closed missed).runs[event.metadata.runId]? = some run := hrun
    simp only [hrun']
    rfl
  | none =>
    have hrun' : (fold.owing closed missed).runs[event.metadata.runId]? = none := hrun
    simp only [hrun']
    cases event.metadata.variantId <;> rfl

theorem foldEvent_owing (event : RecordedEvent) :
    foldEvent measures (fold.owing closed missed) event =
      (foldEvent measures fold event).owing closed missed := by
  unfold foldEvent
  split
  · split
    · exact runsNumbered_owing fold closed missed event _ true
    · rfl
  · dsimp only
    rw [track_owing, startNumbered_owing]
    split
    · exact ended_owing { (fold.track event).startNumbered event with runs := _ } closed missed
        measures event _
    · rfl

theorem missedBefore_owing (through position : Nat) (bound : Int) :
    (fold.owing closed missed).missedBefore through position bound =
      (fold.missedBefore through position bound).owing closed missed := by
  simp only [missedBefore, owing, append_assoc]
  rfl

theorem reached_owing (position : Nat) (bound : Int) :
    (fold.owing closed missed).reached position bound =
      (fold.reached position bound).owing closed missed := by
  unfold reached
  cases hthrough : fold.through with
  | none =>
    have hthrough' : (fold.owing closed missed).through = none := hthrough
    simp only [hthrough']
    rfl
  | some through =>
    have hthrough' : (fold.owing closed missed).through = some through := hthrough
    have hcontiguous : (fold.owing closed missed).contiguous = fold.contiguous := rfl
    simp only [hthrough', hcontiguous]
    split
    · rw [missedBefore_owing]
      rfl
    · rfl

theorem close_owing :
    (fold.owing closed missed).close = (fold.close).owing closed missed := by
  have hat : ∀ began edge, (fold.owing closed missed).closeAt began edge =
      (fold.closeAt began edge).owing closed missed := by
    intro began edge
    simp only [closeAt, owing, append_assoc]
    rfl
  rw [close_eq, close_eq]
  cases hclock : fold.clock with
  | none =>
    have hclock' : (fold.owing closed missed).clock = none := hclock
    simp only [hclock']
  | some clock =>
    have hclock' : (fold.owing closed missed).clock = some clock := hclock
    cases hbegan : fold.began with
    | none =>
      have hbegan' : (fold.owing closed missed).began = none := hbegan
      simp only [hclock', hbegan']
    | some began =>
      have hbegan' : (fold.owing closed missed).began = some began := hbegan
      simp only [hclock', hbegan', hat, ite_owing]
      rfl

theorem apply_owing (event : RecordedEvent) :
    (fold.owing closed missed).apply measures event =
      (fold.apply measures event).owing closed missed := by
  unfold apply
  dsimp only
  have hthrough : (fold.owing closed missed).through = fold.through := rfl
  rw [hthrough]
  split
  · rfl
  · rw [reached_owing]
    generalize fold.reached _ _ = after
    split
    · exact close_owing (after.ticked _) closed missed
    · rw [foldEvent_owing]
      exact close_owing ((foldEvent measures after event).ticked _) closed missed

theorem refill_owing (page : JournalPage) (until' : Nat) :
    (fold.owing closed missed).refill measures page until' =
      (fold.refill measures page until').map fun after => after.owing closed missed := by
  have hone : ∀ (last : Nat) (events : List RecordedEvent) (after : PeriodFold),
      events.foldl (refillOne measures last) (after.owing closed missed) =
        (events.foldl (refillOne measures last) after).owing closed missed := by
    intro last events
    induction events with
    | nil => exact fun _ => rfl
    | cons event rest ih =>
      intro after
      have hread : refillOne measures last (after.owing closed missed) event =
          (refillOne measures last after event).owing closed missed := by
        unfold refillOne
        dsimp only
        have hthrough : (after.owing closed missed).through = after.through := rfl
        rw [hthrough]
        split
        · rfl
        · exact apply_owing (after.readThrough _) closed missed measures event
      rw [foldl_cons, foldl_cons, hread, ih]
  have hbefore : ∀ through, (fold.owing closed missed).beforePage through page =
      (fold.beforePage through page).owing closed missed := by
    intro through
    unfold beforePage
    rw [missedBefore_owing, ite_owing]
    rfl
  unfold refill
  cases hthrough : fold.through with
  | none =>
    have hthrough' : (fold.owing closed missed).through = none := hthrough
    simp only [hthrough']
    rfl
  | some through =>
    have hthrough' : (fold.owing closed missed).through = some through := hthrough
    simp only [hthrough', hbefore, hone]
    generalize page.events.foldl _ _ = read
    split
    · rfl
    · simp only [map_some]
      congr 1
      have hclose := close_owing ((read.readThrough (some (max (min page.last until')
        (read.through.getD 0)))).ticked page.clock) closed missed
      split
      · exact hclose
      · rfl

theorem changeWidth_owing (width : Int) : (fold.owing closed missed).changeWidth width =
    (fold.changeWidth width).owing closed missed := by
  unfold changeWidth
  cases hbegan : fold.began with
  | none =>
    have hbegan' : (fold.owing closed missed).began = none := hbegan
    simp only [hbegan', ite_owing]
    rfl
  | some began =>
    have hbegan' : (fold.owing closed missed).began = some began := hbegan
    simp only [hbegan', ite_owing]
    rfl

end PeriodFold

/-- Whether something waiting is written. -/
def Act.writes : Act → Bool
  | .wrote | .wroteGap _ => true
  | _ => false

namespace PeriodFold

variable {measures : Measures}

/-- **Writing rule**: what is written, and when, changes nothing of what is read on. -/
theorem last_owing (acts : List Act) (hacts : ∀ act ∈ acts, act.writes = false)
    (fold : PeriodFold) (closed : List ClosedPeriod) (missed : List LogGap) :
    (folding measures).last (fold.owing closed missed) acts =
      ((folding measures).last fold acts).owing closed missed := by
  induction acts generalizing fold with
  | nil => rfl
  | cons act rest ih =>
    have hrest : ∀ other ∈ rest, other.writes = false := fun other hother =>
      hacts other (mem_cons_of_mem _ hother)
    cases act with
    | read event =>
      rw [last_cons_some rfl, last_cons_some rfl, apply_owing]
      exact ih hrest _
    | refilled page until' =>
      have hrefill := refill_owing fold closed missed measures page until'
      cases hafter : fold.refill measures page until' with
      | none =>
        rw [hafter] at hrefill
        rw [last_cons_none (by simp [folding, hrefill]), last_cons_none (by simp [folding, hafter])]
        exact ih hrest fold
      | some after =>
        rw [hafter] at hrefill
        have hstep : (folding measures).step fold (.refilled page until') =
            some (newlyClosed fold after, after) := by simp [folding, hafter]
        have hstep' : (folding measures).step (fold.owing closed missed)
            (.refilled page until') = some (newlyClosed (fold.owing closed missed)
              (after.owing closed missed), after.owing closed missed) := by
          simp [folding, hrefill]
        rw [last_cons_some hstep', last_cons_some hstep]
        exact ih hrest after
    | widened width =>
      rw [last_cons_some rfl, last_cons_some rfl, changeWidth_owing]
      exact ih hrest _
    | numbersPositions contiguous =>
      rw [last_cons_some rfl, last_cons_some rfl]
      exact ih hrest { fold with contiguous }
    | wroteGap gap => exact absurd (hacts _ mem_cons_self) (by simp [Act.writes])
    | wrote => exact absurd (hacts _ mem_cons_self) (by simp [Act.writes])

/-! ## Loading -/

/-- A fold that has read nothing is a new one. -/
def Fresh (fold : PeriodFold) : Prop :=
  fold.through = none →
    ∃ width, 0 < width ∧ fold = { new width with contiguous := fold.contiguous }

theorem Fresh.step {fold after : PeriodFold} {act : Act} {out : List ClosedPeriod}
    (h : fold.Fresh) (hact : act.Admitted)
    (hstep : (folding measures).step fold act = some (out, after)) : after.Fresh := by
  intro hthrough
  cases act with
  | read event =>
    simp only [folding, some.injEq, Prod.mk.injEq] at hstep
    rw [← hstep.2, through_apply] at hthrough
    split at hthrough
    · rename_i hskip
      rw [hthrough] at hskip
      cases hskip
    · cases hthrough
  | refilled page until' =>
    simp only [folding, map_eq_some_iff, Prod.mk.injEq] at hstep
    obtain ⟨_, hrefill, -, rfl⟩ := hstep
    obtain ⟨_, read, moved, -, -, rfl, hafter⟩ := refill_cases hrefill
    rcases hafter with rfl | rfl
    · cases hthrough
    · rw [through_close] at hthrough
      cases hthrough
  | widened width =>
    simp only [folding, some.injEq, Prod.mk.injEq] at hstep
    obtain ⟨-, rfl⟩ := hstep
    have hbefore : fold.through = none := by
      unfold changeWidth at hthrough
      split at hthrough
      · exact hthrough
      · split at hthrough <;> exact hthrough
    obtain ⟨old, hpos, hold⟩ := h hbefore
    rw [hold]
    unfold changeWidth
    split
    · exact ⟨old, hpos, rfl⟩
    · have hmax : max width 1 = width := by
        have := hact.1
        omega
      exact ⟨width, hact.1, by simp [new, hmax]⟩
  | numbersPositions contiguous =>
    simp only [folding, some.injEq, Prod.mk.injEq] at hstep
    obtain ⟨-, rfl⟩ := hstep
    obtain ⟨old, hpos, hold⟩ := h hthrough
    exact ⟨old, hpos, by rw [hold]⟩
  | wroteGap gap =>
    simp only [folding, some.injEq, Prod.mk.injEq] at hstep
    obtain ⟨-, rfl⟩ := hstep
    obtain ⟨old, hpos, hold⟩ := h hthrough
    exact ⟨old, hpos, by rw [hold]; simp [gapWritten, new]⟩
  | wrote =>
    simp only [folding] at hstep
    split at hstep
    · cases hstep
    · rename_i period rest hclosed
      simp only [some.injEq, Prod.mk.injEq] at hstep
      obtain ⟨-, rfl⟩ := hstep
      obtain ⟨old, -, hold⟩ := h hthrough
      rw [hold] at hclosed
      cases hclosed

theorem loaded_saved {fold : PeriodFold} (h : fold.Fresh) :
    loaded fold.widths.widthNow fold.contiguous fold.flushed.saved = fold.flushed := by
  cases hthrough : fold.through with
  | some through =>
    simp [saved, flushed, hthrough, loaded, SavedFold.settled, changeWidth]
  | none =>
    obtain ⟨width, hpos, hfold⟩ := h hthrough
    rw [hfold]
    simp only [loaded, saved, flushed, new, Widths.widthNow, head?_nil, map_none,
      getD_none, isEmpty_nil, if_true]
    have hmax : max (max width 1) 1 = max width 1 := by omega
    rw [hmax]

theorem last_skipped {fold : PeriodFold} {again : List RecordedEvent}
    (hagain : ∀ event ∈ again, ∃ through, fold.through = some through ∧
      event.metadata.globalPosition.toNat ≤ through) :
    (folding measures).last fold (again.map .read) = fold := by
  induction again with
  | nil => rfl
  | cons event rest ih =>
    obtain ⟨through, hthrough, hle⟩ := hagain event mem_cons_self
    have hskip : fold.apply measures event = fold := by simp [apply, hthrough, hle]
    rw [map_cons, last_cons_some rfl, hskip]
    exact ih fun other hother => hagain other (mem_cons_of_mem _ hother)

/-- **A restart changes nothing**: a fold that is loaded from the state saved at any point and
reads on from any position before it goes on as the fold that was saved; and it comes to the runs,
the periods and the marks of the fold that was not interrupted, which holds, still unwritten, what
was written when the state was saved, and then what this one holds. -/
theorem resuming_changes_nothing (measures : Measures) {width : Int} (hpos : 0 < width)
    (before : List Act) (hwidths : ∀ act ∈ before, act.Admitted) (again : List RecordedEvent)
    (hagain : ∀ event ∈ again, ∃ through,
      ((folding measures).last (new width) before).through = some through ∧
        event.metadata.globalPosition.toNat ≤ through) :
    let fold := (folding measures).last (new width) before
    let resumed := loaded fold.widths.widthNow fold.contiguous fold.flushed.saved
    (∀ rest, (folding measures).last resumed (again.map .read ++ rest) =
      (folding measures).last fold.flushed rest) ∧
    ∀ rest, (∀ act ∈ rest, act.writes = false) →
      (folding measures).last fold rest =
        ((folding measures).last resumed (again.map .read ++ rest)).owing fold.closed
          fold.missed := by
  have hfresh : ((folding measures).last (new width) before).Fresh := by
    have hnew : (new width).Fresh := fun _ => ⟨width, hpos, rfl⟩
    exact Machine.accum_run (M := folding measures) (fun _ fold => fold.Fresh)
      (fun _ act => act.Admitted) (fun _ _ _ _ _ h hact hstep => h.step hact hstep) (h := [])
      hnew fun st hst => hwidths _ (Machine.input_mem_of_mem_run hst)
  intro fold resumed
  have hresumed : resumed = fold.flushed := loaded_saved hfresh
  have hsame : ∀ rest, (folding measures).last resumed (again.map .read ++ rest) =
      (folding measures).last fold.flushed rest := by
    intro rest
    have hskipped : (folding measures).last fold.flushed (again.map .read) = fold.flushed :=
      last_skipped hagain
    rw [hresumed, Machine.last_append, hskipped]
  refine ⟨hsame, fun rest hrest => ?_⟩
  rw [hsame, ← last_owing rest hrest]
  simp [owing, flushed]

/-- A run that is in flight when the state is saved, and another that has ended. -/
def midway : List Act :=
  [.read (observed .runStarted "run-1" 1 10), .read (observed .runStarted "run-2" 2 20),
    .read (observed .runCompleted "run-1" 3 7200)]

/-- The last event is delivered again, and then the end of the run in flight. -/
theorem midway_restarts :
    let fold := (folding plainMeasures).last (new 60) midway
    (folding plainMeasures).last (loaded fold.widths.widthNow fold.contiguous fold.flushed.saved)
        [.read (observed .runCompleted "run-1" 3 7200),
          .read (observed .runCompleted "run-2" 4 7300)] =
      (folding plainMeasures).last fold.flushed [.read (observed .runCompleted "run-2" 4 7300)] :=
  (resuming_changes_nothing plainMeasures (by decide) midway (by simp [midway, Act.Admitted])
    [observed .runCompleted "run-1" 3 7200] fun event hevent => by
      cases List.mem_singleton.mp hevent
      exact ⟨3, by decide +kernel, by decide +kernel⟩).1
    [.read (observed .runCompleted "run-2" 4 7300)]

end PeriodFold

end Aiwatcher.Periods
