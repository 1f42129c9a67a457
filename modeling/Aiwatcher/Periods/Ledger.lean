import Aiwatcher.Periods.Weights

/-!
# Aiwatcher.Periods.Ledger

The books of a fold: what its own periods count, open or closed, is the ends it has read, and what
an hour or a day counts, open or closed, is what the closed periods in it do (`Ledger`).

The ends of a run are those read at a new position of a run that is in flight, or that name a
variant (`endings`).

Each run is counted once where it ends once (`runs_counted_once`).

An end is counted in one record, whatever came before it, and from there once in each hour and day.
The fold keeps nothing of a run it has counted, though: a second end that names a variant is an end
of a run whose start was never seen, and is counted as a run of its own.
-/

namespace Aiwatcher.Periods

open Library List Option

namespace PeriodFold

/-! ## The ends a fold reads -/

/-- The run an event ends, read at a new position. -/
def endings (fold : PeriodFold) (event : RecordedEvent) : List String :=
  if fold.through.any fun through => event.metadata.globalPosition.toNat ≤ through then []
  else fold.endedIn event

/-- The runs the events of a page end, each in the fold the events before it lead to. -/
def endingsAll (measures : Measures) (last : Nat) : PeriodFold → List RecordedEvent → List String
  | _, [] => []
  | fold, event :: events =>
    let position := event.metadata.globalPosition.toNat
    (if position ≤ fold.through.getD 0 ∨ last < position then []
      else (fold.readThrough (some (position - 1))).endings event) ++
      endingsAll measures last (refillOne measures last fold event) events

end PeriodFold

/-- The runs that are ended by what is done with a fold. -/
def Act.endings (measures : Measures) (fold : PeriodFold) : Act → List String
  | .read event => fold.endings event
  | .refilled page until' =>
    match fold.through with
    | none => []
    | some through =>
      PeriodFold.endingsAll measures (min page.last until') (fold.beforePage through page)
        page.events
  | _ => []

/-- The widths a fold is configured with are whole parts of an hour. -/
def Act.Admitted : Act → Prop
  | .widened width => 0 < width ∧ width ∣ hour
  | _ => True

namespace PeriodFold

variable {fold after : PeriodFold} {released : List ClosedPeriod} {ended : Nat}

/-! ## The books -/

/-- What holds of a fold, of all it has closed, and of the number of ends it has read. -/
structure Ledger (released : List ClosedPeriod) (ended : Nat) (fold : PeriodFold) : Prop where
  traced : Traced released fold
  counted : fold.weight + weightIn fold.isBase released = ended
  rolled : ∀ b level start, fold.began = some b → b ≤ start →
    rollWeight fold.rollups level start + weightIn (fold.isRollup level start) released =
      weightIn (fold.within level start) released

theorem ledger_new {width : Int} (hpos : 0 < width) (hdvd : width ∣ hour) :
    Ledger [] 0 (new width) where
  traced := traced_new hpos hdvd
  counted := by simp [weight, new, weightIn]
  rolled := by simp [new]

theorem Traced.nil_of_began (h : Traced released fold) (hb : fold.began = none) :
    released = [] := by
  rw [eq_nil_iff_forall_not_mem]
  intro period hperiod
  obtain ⟨-, ⟨b, _, hb', -⟩, -⟩ := h.closed period hperiod
  exact absurd (hb.symm.trans hb') (by simp)

theorem Sound.rollWeight_of_began (h : fold.Sound) (hb : fold.began = none) (level start : Int) :
    rollWeight fold.rollups level start = 0 := by
  rw [rollWeight]
  cases hroll : fold.rollups[level]?.bind fun starts => starts[start]? with
  | none => rfl
  | some variants =>
    obtain ⟨-, -, -, b, -, hb', -⟩ := h.rolled level start (by rw [Rolls, hroll]; rfl)
    exact absurd (hb.symm.trans hb') (by simp)

section

variable (h : Ledger released ended fold)

include h

/-- **Frame rule**: what moves the open periods alone keeps the books, by as much. -/
theorem Ledger.frame (htraced : Traced released after) {more : Nat}
    (hweight : after.weight = fold.weight + more)
    (hroll : ∀ level start, rollWeight after.rollups level start =
      rollWeight fold.rollups level start)
    (hbegan : ∀ b, fold.began = some b → after.began = some b)
    (hwidth : ∀ t c, fold.closedThrough = some c → t < c → after.widthAt t = fold.widthAt t) :
    Ledger released (ended + more) after := by
  have hbase := h.traced.isBase_eq hwidth
  have hlevels : ∀ period ∈ released,
      after.rollupLevels period.start = fold.rollupLevels period.start := by
    intro period hperiod
    obtain ⟨hpos, ⟨b, c, hb, hc, hstart, hstop⟩, -⟩ := h.traced.closed period hperiod
    rw [PeriodFold.rollupLevels, hwidth period.start c hc (by omega), PeriodFold.rollupLevels]
  refine ⟨htraced, ?_, ?_⟩
  · rw [hweight, weightIn_congr hbase, ← h.counted]
    omega
  · intro b level start hb hle
    have hrolled : ∀ period ∈ released,
        after.isRollup level start period = fold.isRollup level start period := by
      intro period hperiod
      rw [isRollup, hbase period hperiod, isRollup]
    have hwithin : ∀ period ∈ released,
        after.within level start period = fold.within level start period := by
      intro period hperiod
      rw [within, hbase period hperiod, hlevels period hperiod, within]
    rw [hroll, weightIn_congr hrolled, weightIn_congr hwithin]
    rcases eq_none_or_eq_some fold.began with hnone | ⟨b', hb'⟩
    · rw [h.traced.nil_of_began hnone, h.traced.sound.rollWeight_of_began hnone]
      rfl
    · obtain rfl : b' = b := by simpa [hbegan b' hb'] using hb
      exact h.rolled b' level start hb' hle

/-- What leaves the periods and the hours and days as they are keeps the books. -/
theorem Ledger.same (htraced : Traced released after) (hopen : after.openPeriods = fold.openPeriods)
    (hroll : after.rollups = fold.rollups)
    (hbegan : ∀ b, fold.began = some b → after.began = some b)
    (hwidth : ∀ t c, fold.closedThrough = some c → t < c → after.widthAt t = fold.widthAt t) :
    Ledger released ended after := by
  have hweight : after.weight = fold.weight + 0 := by
    rw [weight, hopen]
    rfl
  exact h.frame htraced hweight (fun _ _ => by rw [hroll]) hbegan hwidth

/-- **Closing rule**: what is closed is taken from the open periods, and added to the hours and
days that are open or closed with it. -/
theorem Ledger.closeAt {b edge : Int} (hedge : fold.Edge b edge) :
    Ledger (released ++ fold.closedAt b edge) ended (fold.closeAt b edge) := by
  have hbase := h.traced.sound.filter_closedAt hedge
  refine ⟨h.traced.closeAt hedge, ?_, ?_⟩
  · have hclosed : weightIn fold.isBase (fold.closedAt b edge) =
        (((fold.closing edge).filterMap fold.closedBase).map ClosedPeriod.weight).sum := by
      rw [weightIn, hbase]
    have hweight := fold.weight_closeAt b edge
    have hcounted := h.counted
    change (fold.closeAt b edge).weight +
      weightIn fold.isBase (released ++ fold.closedAt b edge) = ended
    rw [weightIn_append, hclosed]
    omega
  · intro b' level start hb' hle
    have hbegan : fold.began = some b' := hb'
    obtain rfl : b' = b := by simpa [hedge.began] using hbegan.symm
    have hrolled := h.rolled b' level start hedge.began hle
    have hadded : rollWeight ((fold.closing edge).foldl (fold.rolling b') fold.rollups) level start =
        rollWeight fold.rollups level start +
          weightIn (fold.within level start) ((fold.closing edge).filterMap fold.closedBase) :=
      fold.rollWeight_rolling hle (fold.closing edge)
    have htaken : rollWeight ((fold.closing edge).foldl (fold.rolling b') fold.rollups) level start =
        rollWeight (fold.closeAt b' edge).rollups level start +
          weightIn (fun period => decide (period.level = level ∧ period.start = start))
            (closedRollups ((fold.closing edge).foldl (fold.rolling b') fold.rollups)
              fold.through edge) :=
      rollWeight_closed level start edge fold.through
    -- of what is closed, the fold's own periods are no hours or days, nor the other way round
    have hrolls : weightIn (fold.isRollup level start) (fold.closedAt b' edge) =
        weightIn (fun period => decide (period.level = level ∧ period.start = start))
          (closedRollups ((fold.closing edge).foldl (fold.rolling b') fold.rollups)
            fold.through edge) := by
      have hown : weightIn (fold.isRollup level start)
          ((fold.closing edge).filterMap fold.closedBase) = 0 :=
        weightIn_eq_zero fun period hperiod => by simp [isRollup, (isBase_closing hperiod).1]
      have hother : ∀ period ∈ closedRollups
          ((fold.closing edge).foldl (fold.rolling b') fold.rollups) fold.through edge,
          fold.isRollup level start period =
            decide (period.level = level ∧ period.start = start) := by
        intro period hperiod
        simp [isRollup, (h.traced.sound.isBase_rollups hedge hperiod).1]
      rw [PeriodFold.closedAt, weightIn_append, hown, weightIn_congr hother, Nat.zero_add]
    have hwithin : weightIn (fold.within level start) (fold.closedAt b' edge) =
        weightIn (fold.within level start) ((fold.closing edge).filterMap fold.closedBase) := by
      have hzero : weightIn (fold.within level start)
          (closedRollups ((fold.closing edge).foldl (fold.rolling b') fold.rollups)
            fold.through edge) = 0 :=
        weightIn_eq_zero fun period hperiod => by
          simp [within, (h.traced.sound.isBase_rollups hedge hperiod).1]
      rw [PeriodFold.closedAt, weightIn_append, hzero, Nat.add_zero]
    change rollWeight (fold.closeAt b' edge).rollups level start +
        weightIn (fold.isRollup level start) (released ++ fold.closedAt b' edge) =
      weightIn (fold.within level start) (released ++ fold.closedAt b' edge)
    rw [weightIn_append, weightIn_append, hrolls, hwithin]
    omega

end

/-! ## Every step -/

/-- What an operation does to the books: it closes more, and reads more ends. -/
def Leads (released : List ClosedPeriod) (ended : Nat) (fold after : PeriodFold) (more : Nat) :
    Prop :=
  (fold.began.isSome → after.began.isSome) ∧
    ∃ periods, after.closed = fold.closed ++ periods ∧
      Ledger (released ++ periods) (ended + more) after

theorem Ledger.leads (h : Ledger released (ended + more) after)
    (hclosed : after.closed = fold.closed) (hbegan : fold.began.isSome → after.began.isSome) :
    Leads released ended fold after more :=
  ⟨hbegan, [], by rw [hclosed, append_nil], by rw [append_nil]; exact h⟩

theorem Leads.trans {middle : PeriodFold} {more rest : Nat}
    (h : Leads released ended fold middle more)
    (hnext : ∀ released' ended', Ledger released' ended' middle →
      Leads released' ended' middle after rest) :
    Leads released ended fold after (more + rest) := by
  obtain ⟨hbegan, periods, hclosed, hledger⟩ := h
  obtain ⟨hbegan', periods', hclosed', hledger'⟩ := hnext _ _ hledger
  refine ⟨fun hb => hbegan' (hbegan hb), periods ++ periods', ?_, ?_⟩
  · rw [hclosed', hclosed, append_assoc]
  · rw [← append_assoc, ← Nat.add_assoc]
    exact hledger'

section

variable (h : Ledger released ended fold)

include h

theorem Ledger.tick_close (bound : Int) :
    Leads released ended fold (fold.ticked bound).close 0 := by
  have hticked : Ledger released ended (fold.ticked bound) := by
    refine h.same (h.traced.frame ?_ rfl rfl (fun _ hb => hb) fun _ _ _ _ => rfl) rfl rfl
      (fun _ hb => hb) fun _ _ _ _ => rfl
    exact h.traced.sound.mono rfl rfl rfl h.traced.sound.read (fun _ hopen => .inl hopen)
      fun _ _ hroll => hroll
  rcases (fold.ticked bound).close_cases with heq | ⟨clock, b, edge, -, hb, hfloor, hlt, heq⟩
  · rw [heq]
    exact hticked.leads rfl id
  · have hedge := hticked.traced.sound.edge hb hfloor hlt
    rw [heq]
    exact ⟨id, _, rfl, hticked.closeAt hedge⟩

theorem Ledger.missedBefore (through position : Nat) (bound : Int) :
    Ledger released ended (fold.missedBefore through position bound) := by
  have hweight : (fold.missedBefore through position bound).weight = fold.weight + 0 :=
    fold.weight_missedBefore through position bound
  exact h.frame (h.traced.missedBefore through position bound) hweight
    (fun level start => fold.rollWeight_missedBefore through position bound level start)
    (fun _ hb => hb) fun _ _ _ _ => rfl

theorem Ledger.reached (position : Nat) (bound : Int) :
    Leads released ended fold (fold.reached position bound) 0 ∧
      (fold.reached position bound).began.isSome := by
  obtain ⟨htraced, hbegan, hclosed⟩ := h.traced.reached position bound
  obtain ⟨hweight, hroll, hwidths, hb⟩ := fold.weight_reached position bound
  refine ⟨Ledger.leads ?_ hclosed fun _ => hbegan, hbegan⟩
  exact h.frame htraced hweight hroll hb fun t _ _ _ => by rw [widthAt, hwidths, widthAt]

theorem Ledger.foldEvent (hbegan : fold.began.isSome) (measures : Measures)
    (event : RecordedEvent) :
    Leads released ended fold (foldEvent measures fold event) (fold.endedIn event).length := by
  obtain ⟨htraced, hb, hclosed⟩ := h.traced.foldEvent hbegan measures event
  refine Ledger.leads ?_ hclosed fun hsome => by rw [hb]; exact hsome
  obtain ⟨placements, runs, runCounts, forgotten, heq, -, -⟩ := foldEvent_eq measures fold event
  obtain ⟨-, -, -, hwidths, -, -⟩ := h.traced.sound.placeAll hbegan placements
  refine h.frame htraced (weight_foldEvent measures fold event) ?_
    (fun b hbs => hb.trans hbs) ?_
  · intro level start
    rw [heq]
    exact congrArg (fun rollups => rollWeight rollups level start) (rollups_placeAll fold placements)
  · intro t _ _ _
    rw [heq]
    exact congrArg (fun widths => widths.widthAt t) hwidths

end

theorem endedIn_reached (fold : PeriodFold) (position : Nat) (bound : Int)
    (event : RecordedEvent) : (fold.reached position bound).endedIn event = fold.endedIn event := by
  unfold PeriodFold.reached
  dsimp only
  split
  · split
    · rfl
    · rfl
  · rfl

theorem endedIn_of_eval {event : RecordedEvent} (h : event.eventType.subject = .eval) :
    fold.endedIn event = [] := by
  simp [endedIn, endsRun, h]

section

variable (h : Ledger released ended fold)

include h

theorem Ledger.apply (measures : Measures) (event : RecordedEvent) :
    Leads released ended fold (fold.apply measures event) (fold.endings event).length := by
  unfold PeriodFold.apply endings
  dsimp only
  split
  · exact h.leads rfl id
  · obtain ⟨hreached, hbegan⟩ := h.reached event.metadata.globalPosition.toNat
      (unixTimestamp (min event.metadata.occurredAt event.metadata.ingestedAt))
    have hsame := fold.endedIn_reached event.metadata.globalPosition.toNat
      (unixTimestamp (min event.metadata.occurredAt event.metadata.ingestedAt)) event
    rw [← Nat.zero_add (fold.endedIn event).length]
    refine hreached.trans fun released' ended' hread => ?_
    split
    · rename_i heval
      rw [endedIn_of_eval heval]
      exact hread.tick_close _
    · rw [← hsame]
      exact (hread.foldEvent hbegan measures event).trans fun _ _ hfold => hfold.tick_close _

theorem Ledger.readThrough (hbegan : fold.began.isSome) (through : Option Nat) :
    Leads released ended fold (fold.readThrough through) 0 := by
  refine Ledger.leads ?_ rfl id
  refine h.same (h.traced.frame ?_ rfl rfl (fun _ hb => hb) fun _ _ _ _ => rfl) rfl rfl
    (fun _ hb => hb) fun _ _ _ _ => rfl
  exact h.traced.sound.mono rfl rfl rfl (fun _ => hbegan) (fun _ hopen => .inl hopen)
    fun _ _ hroll => hroll

theorem Ledger.refillAll (hbegan : fold.began.isSome) (measures : Measures) (last : Nat)
    (events : List RecordedEvent) :
    Leads released ended fold (events.foldl (refillOne measures last) fold)
      (endingsAll measures last fold events).length := by
  induction events generalizing released ended fold with
  | nil => exact h.leads rfl id
  | cons event rest ih =>
    dsimp only [endingsAll]
    rw [length_append, foldl_cons]
    have hone : Leads released ended fold (refillOne measures last fold event)
        (if event.metadata.globalPosition.toNat ≤ fold.through.getD 0 ∨
            last < event.metadata.globalPosition.toNat then []
          else (fold.readThrough
            (some (event.metadata.globalPosition.toNat - 1))).endings event).length := by
      unfold refillOne
      dsimp only
      split
      · exact h.leads rfl id
      · rw [← Nat.zero_add (List.length _)]
        exact (h.readThrough hbegan _).trans fun _ _ hread => hread.apply measures event
    exact hone.trans fun _ _ hledger => ih hledger (hone.1 hbegan)

end

variable {measures : Measures}

theorem Ledger.refill (h : Ledger released ended fold) {page : JournalPage} {until' : Nat}
    (hrefill : fold.refill measures page until' = some after) :
    Leads released ended fold after
      ((Act.refilled page until').endings measures fold).length := by
  obtain ⟨through, read, moved, hthrough, hread, hmoved, hafter⟩ := refill_cases hrefill
  have hbegan : fold.began.isSome := h.traced.sound.read (by rw [hthrough]; rfl)
  have hgap : Leads released ended fold (fold.beforePage through page) 0 := by
    unfold beforePage
    split
    · have hmissed : Leads released ended fold
          (fold.missedBefore through page.first page.start) 0 :=
        (h.missedBefore through page.first page.start).leads rfl id
      exact hmissed.trans fun _ _ hmissed => hmissed.readThrough hbegan _
    · exact h.leads rfl id
  have hevents : Leads released ended fold read
      ((Act.refilled page until').endings measures fold).length := by
    rw [hread, Act.endings, hthrough, ← Nat.zero_add (List.length _)]
    exact hgap.trans fun _ _ hpage => hpage.refillAll (hgap.1 hbegan) measures _ page.events
  have hcaught : Leads released ended fold moved
      ((Act.refilled page until').endings measures fold).length := by
    rw [hmoved]
    exact hevents.trans fun _ _ hevents' => hevents'.readThrough (hevents.1 hbegan) _
  rcases hafter with rfl | rfl
  · exact hcaught
  · exact hcaught.trans fun _ _ hmoved => hmoved.tick_close page.clock

/-- **Step rule**: whatever is done with a fold, the books are kept: what it closes follows what it
has closed, and the ends it reads are counted. -/
theorem Ledger.step (h : Ledger released ended fold) {act : Act} {out : List ClosedPeriod}
    (hact : Act.Admitted act) (hstep : (folding measures).step fold act = some (out, after)) :
    Ledger (released ++ out) (ended + (act.endings measures fold).length) after := by
  cases act with
  | read event =>
    obtain ⟨rfl, rfl⟩ := Prod.mk.inj (some.inj hstep)
    obtain ⟨-, periods, hclosed, hledger⟩ := h.apply measures event
    rw [newlyClosed_of_append hclosed]
    exact hledger
  | refilled page until' =>
    obtain ⟨refilled, hrefill, heq⟩ := map_eq_some_iff.mp hstep
    obtain ⟨rfl, rfl⟩ := Prod.mk.inj heq
    obtain ⟨-, periods, hclosed, hledger⟩ := h.refill hrefill
    rw [newlyClosed_of_append hclosed]
    exact hledger
  | widened width =>
    obtain ⟨rfl, rfl⟩ := Prod.mk.inj (some.inj hstep)
    rw [append_nil]
    obtain ⟨⟨widths, heq⟩, hwidth⟩ := h.traced.sound.frame_changeWidth hact.1 hact.2
    have htraced := h.traced.widen hact.1 hact.2
    rw [heq] at htraced hwidth ⊢
    exact h.same htraced rfl rfl (fun _ hb => hb) hwidth
  | numbersPositions contiguous =>
    obtain ⟨rfl, rfl⟩ := Prod.mk.inj (some.inj hstep)
    rw [append_nil]
    refine h.same (h.traced.frame ?_ rfl rfl (fun _ hb => hb) fun _ _ _ _ => rfl) rfl rfl
      (fun _ hb => hb) fun _ _ _ _ => rfl
    exact h.traced.sound.mono rfl rfl rfl h.traced.sound.read (fun _ hopen => .inl hopen)
      fun _ _ hroll => hroll
  | wroteGap gap =>
    obtain ⟨rfl, rfl⟩ := Prod.mk.inj (some.inj hstep)
    rw [append_nil]
    refine h.same (h.traced.frame ?_ rfl rfl (fun _ hb => hb) fun _ _ _ _ => rfl) rfl rfl
      (fun _ hb => hb) fun _ _ _ _ => rfl
    exact h.traced.sound.mono rfl rfl rfl h.traced.sound.read (fun _ hopen => .inl hopen)
      fun _ _ hroll => hroll
  | wrote =>
    dsimp only [folding] at hstep
    split at hstep
    · cases hstep
    · rename_i period rest hqueue
      obtain ⟨rfl, rfl⟩ := Prod.mk.inj (some.inj hstep)
      rw [append_nil, closed_written hqueue]
      exact h.same (h.traced.written hqueue) rfl rfl (fun _ hb => hb) fun _ _ _ _ => rfl

/-- The runs whose ends the steps of a run have read, each as often as it ended. -/
def endingsOf (measures : Measures) (steps : List (Step PeriodFold Act ClosedPeriod)) :
    List String :=
  steps.flatMap fun st => st.input.endings measures st.before

/-- The books after some steps. -/
def Books (measures : Measures) (steps : List (Step PeriodFold Act ClosedPeriod))
    (fold : PeriodFold) : Prop :=
  Ledger (steps.flatMap (·.out)) (endingsOf measures steps).length fold

theorem Books.step {past : List (Step PeriodFold Act ClosedPeriod)}
    {st : Step PeriodFold Act ClosedPeriod} (h : Books measures past st.before)
    (hact : Act.Admitted st.input)
    (hstep : (folding measures).step st.before st.input = some (st.out, st.after)) :
    Books measures (past ++ [st]) st.after := by
  have hafter := Ledger.step h hact hstep
  simpa [Books, endingsOf] using hafter

/-- **Run rule**: the books of every fold reached are kept. -/
theorem ledger_run (measures : Measures) {width : Int} (hpos : 0 < width) (hdvd : width ∣ hour)
    {acts : List Act} (hacts : ∀ act ∈ acts, Act.Admitted act) :
    Ledger ((folding measures).emitted (new width) acts)
      (endingsOf measures ((folding measures).run (new width) acts)).length
      ((folding measures).last (new width) acts) := by
  have hrun : Books measures ([] ++ (folding measures).run (new width) acts)
      ((folding measures).last (new width) acts) :=
    Machine.record_run (Books measures) (fun _ act => Act.Admitted act)
      (fun _ _ hbooks hact hstep => hbooks.step hact hstep) (ledger_new hpos hdvd)
      fun st hst => hacts st.input (Machine.input_mem_of_mem_run hst)
  exact hrun

end PeriodFold

namespace PeriodFold

/-- Each run is counted once: an end adds one to one record; what an hour or a day counts, open or
closed, is what the periods closed in it do; and what the periods count, open or closed, is the
number of runs that ended. -/
structure CountedOnce (measures : Measures) (steps : List (Step PeriodFold Act ClosedPeriod))
    (released : List ClosedPeriod) (fold : PeriodFold) : Prop where
  record : ∀ before event, ∃ start key, ∀ s k,
    (foldEvent measures before event).recordWeight s k = before.recordWeight s k +
      if s = start ∧ k = key then (before.endedIn event).length else 0
  rolled : ∀ b level start, fold.began = some b → b ≤ start →
    rollWeight fold.rollups level start + weightIn (fold.isRollup level start) released =
      weightIn (fold.within level start) released
  counted : fold.weight + weightIn fold.isBase released =
    (endingsOf measures steps).dedup.length

/-- **Each run is counted once** just where none ends twice, of the ends read at a new position
of a run that is in flight or that name a variant. -/
theorem runs_counted_once (measures : Measures) {width : Int} (hpos : 0 < width)
    (hdvd : width ∣ hour) (acts : List Act) (hacts : ∀ act ∈ acts, Act.Admitted act) :
    CountedOnce measures ((folding measures).run (new width) acts)
        ((folding measures).emitted (new width) acts) ((folding measures).last (new width) acts) ↔
      (endingsOf measures ((folding measures).run (new width) acts)).Nodup := by
  have hledger := ledger_run measures hpos hdvd hacts
  constructor
  · intro h
    have hlength := hledger.counted.symm.trans h.counted
    rw [← List.dedup_eq_self]
    exact (List.dedup_sublist _).eq_of_length hlength.symm
  · intro hnodup
    refine ⟨recordWeight_foldEvent measures, hledger.rolled, ?_⟩
    rw [hledger.counted, List.dedup_eq_self.mpr hnodup]

/-- A run that starts, ends, and ends once more. -/
def endsTwice : List Act :=
  [.read (observed .runStarted "run-1" 1 7200), .read (observed .runCompleted "run-1" 2 7260),
    .read (observed .runFailed "run-1" 3 7270)]

theorem endsTwice_not_countedOnce :
    ¬ CountedOnce plainMeasures ((folding plainMeasures).run (new 900) endsTwice)
      ((folding plainMeasures).emitted (new 900) endsTwice)
      ((folding plainMeasures).last (new 900) endsTwice) := by
  intro h
  have hcounted := h.counted
  revert hcounted
  decide +kernel

/-- A run seen whole, one whose start was never seen, and one that ends in a period that has
closed. -/
def endsOnce : List Act :=
  [.read (observed .runStarted "run-1" 1 7200), .read (observed .runCompleted "run-1" 2 7260),
    .read (observed .runStarted "run-2" 3 7300), .read (observed .runFailed "run-3" 4 15000),
    .read (observed .runCompleted "run-2" 5 7400)]

theorem endsOnce_countedOnce :
    CountedOnce plainMeasures ((folding plainMeasures).run (new 900) endsOnce)
      ((folding plainMeasures).emitted (new 900) endsOnce)
      ((folding plainMeasures).last (new 900) endsOnce) := by
  have hadmitted : ∀ act ∈ endsOnce, Act.Admitted act := by
    intro act hact
    simp only [endsOnce, List.mem_cons, List.not_mem_nil, or_false] at hact
    rcases hact with rfl | rfl | rfl | rfl | rfl <;> trivial
  exact (runs_counted_once plainMeasures (by decide) (by decide) endsOnce hadmitted).mpr
    (by decide +kernel)

end PeriodFold

end Aiwatcher.Periods
