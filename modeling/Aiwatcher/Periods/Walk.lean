import Aiwatcher.Periods.Ledger

/-!
# Aiwatcher.Periods.Walk

What holds of a fold and of all it has closed, and is kept by each of the things an act does to a
fold (`Keeps`), is kept by the act: `Keeps.step`, and `Keeps.noticed_step` where the act finds that
positions are missing.
-/

namespace Aiwatcher.Periods

open Library List Option

namespace PeriodFold

/-! ## Missing positions -/

/-- Where the interval begins that missing positions may have lain in, before an event. -/
def gapStart (fold : PeriodFold) (bound : Int) : Int :=
  min ((fold.clock.or (fold.closedThrough.or fold.began)).getD bound) bound

/-- The positions an act finds that the log no longer holds, and the interval of time between
what was read before them and after. -/
def missing (fold : PeriodFold) : Act → Option LogGap
  | .read event =>
    let position := event.metadata.globalPosition.toNat
    let bound := unixTimestamp (min event.metadata.occurredAt event.metadata.ingestedAt)
    fold.through.bind fun through =>
      if fold.contiguous && through + 1 < position then
        some ⟨through + 1, position - 1, fold.gapStart bound, bound⟩
      else none
  | .refilled page until' =>
    fold.through.bind fun through =>
      if page.last ≤ through ∨ min page.last until' < page.first then none
      else if through + 1 < page.first then
        some ⟨through + 1, page.first - 1, fold.gapStart page.start, page.start⟩
      else none
  | _ => none

/-- A fold that has noticed what an event finds missing. -/
def noticed (fold : PeriodFold) (position : Nat) (bound : Int) : PeriodFold :=
  match fold.through with
  | some through =>
    if fold.contiguous && through + 1 < position then fold.missedBefore through position bound
    else fold
  | none => fold

/-- A fold that reads an event at a position it has come to. -/
def readOn (measures : Measures) (fold : PeriodFold) (event : RecordedEvent) : PeriodFold :=
  let bound := unixTimestamp (min event.metadata.occurredAt event.metadata.ingestedAt)
  let fold := { fold with
    through := some event.metadata.globalPosition.toNat
    began := some (fold.began.getD (fold.floorAt bound))
    firstRead := some (fold.firstRead.getD bound) }
  let fold := if event.eventType.subject = .eval then fold else foldEvent measures fold event
  (fold.ticked bound).close

variable (measures : Measures)

theorem apply_eq (fold : PeriodFold) (event : RecordedEvent) :
    fold.apply measures event =
      if fold.through.any fun through => event.metadata.globalPosition.toNat ≤ through then fold
      else readOn measures (fold.noticed event.metadata.globalPosition.toNat
        (unixTimestamp (min event.metadata.occurredAt event.metadata.ingestedAt))) event := rfl

/-- A fold that reads a page at a position it has come to. -/
def readPage (measures : Measures) (fold : PeriodFold) (page : JournalPage) (until' : Nat) :
    PeriodFold :=
  let last := min page.last until'
  let read := page.events.foldl (refillOne measures last) fold
  let read := read.readThrough (some (max last (read.through.getD 0)))
  if last = page.last then (read.ticked page.clock).close else read

theorem refill_eq (fold : PeriodFold) (page : JournalPage) (until' : Nat) :
    fold.refill measures page until' = fold.through.bind fun through =>
      if page.last ≤ through ∨ min page.last until' < page.first then none
      else some (readPage measures (fold.beforePage through page) page until') := by
  unfold refill
  cases fold.through <;> rfl

/-- **What finding positions missing does**: they are noticed, and the act reads on from there. -/
theorem missing_cases {fold : PeriodFold} {act : Act} {gap : LogGap}
    (h : fold.missing act = some gap) : ∃ through position, fold.through = some through ∧
      gap = ⟨through + 1, position - 1, fold.gapStart gap.until', gap.until'⟩ ∧
      ((∃ event, act = .read event ∧ fold.apply measures event =
          readOn measures (fold.missedBefore through position gap.until') event) ∨
        ∃ page until', act = .refilled page until' ∧ fold.refill measures page until' =
          some (readPage measures ((fold.missedBefore through position gap.until').readThrough
            (some (position - 1))) page until')) := by
  cases act with
  | read event =>
    obtain ⟨through, hthrough, hmissing⟩ := bind_eq_some_iff.mp h
    split at hmissing
    · rename_i hcond
      cases some.inj hmissing
      have hlate : through + 1 < event.metadata.globalPosition.toNat := by
        simpa using (Bool.and_eq_true_iff.mp hcond).2
      have hnew : ¬ (fold.through.any fun through =>
          decide (event.metadata.globalPosition.toNat ≤ through)) = true := by
        simp only [hthrough, any_some, decide_eq_true_eq]
        omega
      refine ⟨through, _, hthrough, rfl, .inl ⟨event, rfl, ?_⟩⟩
      rw [apply_eq, if_neg hnew, noticed]
      simp only [hthrough, hcond, if_true]
    · cases hmissing
  | refilled page until' =>
    obtain ⟨through, hthrough, hmissing⟩ := bind_eq_some_iff.mp h
    split at hmissing
    · cases hmissing
    · rename_i hreaches
      split at hmissing
      · rename_i hgapped
        cases some.inj hmissing
        refine ⟨through, _, hthrough, rfl, .inr ⟨page, until', rfl, ?_⟩⟩
        rw [refill_eq, hthrough, bind_some, if_neg hreaches, beforePage, if_pos hgapped]
      · cases hmissing
  | widened width => cases h
  | numbersPositions contiguous => cases h
  | wroteGap gap => cases h
  | wrote => cases h

/-! ## What is kept -/

/-- What each of the things an act does to a fold keeps. -/
structure Keeps (P : List ClosedPeriod → PeriodFold → Prop) : Prop where
  frame : ∀ {released : List ClosedPeriod} {fold after : PeriodFold}, P released fold →
    after.widths = fold.widths → after.openPeriods = fold.openPeriods →
    after.rollups = fold.rollups → after.closedThrough = fold.closedThrough →
    after.missedSpans = fold.missedSpans →
    (∀ b, fold.began = some b → after.began = some b) → P released after
  missed : ∀ {released : List ClosedPeriod} {fold : PeriodFold}, Traced released fold →
    P released fold → ∀ through position bound,
      P released (fold.missedBefore through position bound)
  place : ∀ {released : List ClosedPeriod} {fold : PeriodFold}, Traced released fold →
    P released fold → fold.began.isSome → ∀ p : Placement,
      P released (fold.place p.project p.variantId p.endSeconds p.run)
  close : ∀ {released : List ClosedPeriod} {fold : PeriodFold} {b edge : Int},
    Traced released fold → P released fold → fold.Edge b edge →
      P (released ++ fold.closedAt b edge) (fold.closeAt b edge)
  widen : ∀ {released : List ClosedPeriod} {fold : PeriodFold}, Traced released fold →
    P released fold → ∀ {width : Int}, 0 < width → width ∣ hour →
      P released (fold.changeWidth width)

/-- What an operation does: it closes more, and keeps what holds. -/
def Goes (P : List ClosedPeriod → PeriodFold → Prop) (released : List ClosedPeriod)
    (fold after : PeriodFold) : Prop :=
  (fold.began.isSome → after.began.isSome) ∧
    ∃ periods, after.closed = fold.closed ++ periods ∧ Traced (released ++ periods) after ∧
      P (released ++ periods) after

variable {P : List ClosedPeriod → PeriodFold → Prop} {released : List ClosedPeriod}
  {fold after : PeriodFold}

theorem goes_of_closed (htraced : Traced released after) (h : P released after)
    (hclosed : after.closed = fold.closed) (hbegan : fold.began.isSome → after.began.isSome) :
    Goes P released fold after :=
  ⟨hbegan, [], by rw [hclosed, append_nil], by rw [append_nil]; exact htraced,
    by rw [append_nil]; exact h⟩

theorem Goes.trans {middle : PeriodFold} (h : Goes P released fold middle)
    (hnext : ∀ released', Traced released' middle → P released' middle →
      Goes P released' middle after) : Goes P released fold after := by
  obtain ⟨hbegan, periods, hclosed, htraced, hp⟩ := h
  obtain ⟨hbegan', periods', hclosed', htraced', hp'⟩ := hnext _ htraced hp
  refine ⟨fun hb => hbegan' (hbegan hb), periods ++ periods', ?_, ?_, ?_⟩
  · rw [hclosed', hclosed, append_assoc]
  · rw [← append_assoc]
    exact htraced'
  · rw [← append_assoc]
    exact hp'

namespace Keeps

variable (hkeeps : Keeps P)
include hkeeps

section

variable (htraced : Traced released fold)

include htraced

section

variable (h : P released fold)

include h

theorem tick_close (bound : Int) : Goes P released fold (fold.ticked bound).close := by
  have hticked : Traced released (fold.ticked bound) := by
    refine htraced.frame ?_ rfl rfl (fun _ hb => hb) fun _ _ _ _ => rfl
    exact htraced.sound.mono rfl rfl rfl htraced.sound.read (fun _ hopen => .inl hopen)
      fun _ _ hroll => hroll
  have hp : P released (fold.ticked bound) :=
    hkeeps.frame h rfl rfl rfl rfl rfl fun _ hb => hb
  rcases (fold.ticked bound).close_cases with heq | ⟨clock, b, edge, -, hb, hfloor, hlt, heq⟩
  · rw [heq]
    exact goes_of_closed hticked hp rfl id
  · have hedge := hticked.sound.edge hb hfloor hlt
    rw [heq]
    exact ⟨id, _, rfl, hticked.closeAt hedge, hkeeps.close hticked hp hedge⟩

theorem placeAll (hbegan : fold.began.isSome) (placements : List Placement) :
    P released (fold.placeAll placements) := by
  induction placements generalizing fold with
  | nil => exact h
  | cons p rest ih =>
    have hsound := htraced.sound.place hbegan p
    have hplaced : Traced released (fold.place p.project p.variantId p.endSeconds p.run) :=
      htraced.frame hsound rfl rfl (fun _ hb => hb) fun _ _ _ _ => rfl
    exact ih hplaced (hkeeps.place htraced h hbegan p) hbegan

theorem foldEvent (hbegan : fold.began.isSome) (measures : Measures) (event : RecordedEvent) :
    Goes P released fold (foldEvent measures fold event) := by
  obtain ⟨hfolded, hb, hclosed⟩ := htraced.foldEvent hbegan measures event
  refine goes_of_closed hfolded ?_ hclosed fun hsome => by rw [hb]; exact hsome
  obtain ⟨placements, runs, runCounts, forgotten, heq, -, -⟩ := foldEvent_eq measures fold event
  rw [heq]
  exact hkeeps.frame (hkeeps.placeAll htraced h hbegan placements) rfl rfl rfl rfl rfl
    fun _ hb => hb

theorem readThrough (hbegan : fold.began.isSome) (through : Option Nat) :
    Goes P released fold (fold.readThrough through) := by
  refine goes_of_closed ?_ (hkeeps.frame h rfl rfl rfl rfl rfl fun _ hb => hb) rfl id
  refine htraced.frame ?_ rfl rfl (fun _ hb => hb) fun _ _ _ _ => rfl
  exact htraced.sound.mono rfl rfl rfl (fun _ => hbegan) (fun _ hopen => .inl hopen)
    fun _ _ hroll => hroll

theorem readOn (measures : Measures) (event : RecordedEvent) :
    Goes P released fold (readOn measures fold event) := by
  unfold PeriodFold.readOn
  dsimp only
  generalize unixTimestamp (min event.metadata.occurredAt event.metadata.ingestedAt) = bound
  have hbegun : Goes P released fold { fold with
      through := some event.metadata.globalPosition.toNat
      began := some (fold.began.getD (fold.floorAt bound))
      firstRead := some (fold.firstRead.getD bound) } := by
    have hkept : ∀ b, fold.began = some b →
        some (fold.began.getD (fold.floorAt bound)) = some b := fun b hb => by simp [hb]
    refine goes_of_closed ?_ (hkeeps.frame h rfl rfl rfl rfl rfl hkept) rfl fun _ => rfl
    refine htraced.frame ?_ rfl rfl hkept fun _ _ _ _ => rfl
    exact (htraced.sound.begin bound).mono rfl rfl rfl (fun _ => rfl) (fun _ hopen => .inl hopen)
      fun _ _ hroll => hroll
  refine hbegun.trans fun released' htraced' hp' => ?_
  split
  · exact hkeeps.tick_close htraced' hp' bound
  · exact (hkeeps.foldEvent htraced' hp' rfl measures event).trans fun _ htraced hp =>
      hkeeps.tick_close htraced hp bound

theorem noticed (position : Nat) (bound : Int) :
    Goes P released fold (fold.noticed position bound) := by
  unfold PeriodFold.noticed
  split
  · split
    · exact goes_of_closed (htraced.missedBefore _ _ _) (hkeeps.missed htraced h _ _ _) rfl id
    · exact goes_of_closed htraced h rfl id
  · exact goes_of_closed htraced h rfl id

theorem apply (measures : Measures) (event : RecordedEvent) :
    Goes P released fold (fold.apply measures event) := by
  rw [apply_eq]
  split
  · exact goes_of_closed htraced h rfl id
  · exact (hkeeps.noticed htraced h _ _).trans fun _ htraced hp =>
      hkeeps.readOn htraced hp measures event

theorem refillAll (hbegan : fold.began.isSome) (measures : Measures) (last : Nat)
    (events : List RecordedEvent) :
    Goes P released fold (events.foldl (refillOne measures last) fold) := by
  induction events generalizing released fold with
  | nil => exact goes_of_closed htraced h rfl id
  | cons event rest ih =>
    rw [foldl_cons]
    have hone : Goes P released fold (refillOne measures last fold event) := by
      unfold refillOne
      dsimp only
      split
      · exact goes_of_closed htraced h rfl id
      · exact (hkeeps.readThrough htraced h hbegan _).trans fun _ htraced hp =>
          hkeeps.apply htraced hp measures event
    exact hone.trans fun _ htraced hp => ih htraced hp (hone.1 hbegan)

theorem readPage (hbegan : fold.began.isSome) (measures : Measures) (page : JournalPage)
    (until' : Nat) : Goes P released fold (readPage measures fold page until') := by
  unfold PeriodFold.readPage
  dsimp only
  have hevents := hkeeps.refillAll htraced h hbegan measures (min page.last until') page.events
  have hread := hevents.trans fun _ htraced hp => hkeeps.readThrough htraced hp (hevents.1 hbegan)
    (some (max (min page.last until')
      ((page.events.foldl (refillOne measures (min page.last until')) fold).through.getD 0)))
  split
  · exact hread.trans fun _ htraced hp => hkeeps.tick_close htraced hp page.clock
  · exact hread

/-- A page that is read leaves a gap before it, where it does not go on from the fold. -/
theorem beforePage (hbegan : fold.began.isSome) (through : Nat) (page : JournalPage) :
    Goes P released fold (fold.beforePage through page) := by
  unfold PeriodFold.beforePage
  split
  · have hmissed : Goes P released fold (fold.missedBefore through page.first page.start) :=
      goes_of_closed (htraced.missedBefore _ _ _) (hkeeps.missed htraced h _ _ _) rfl id
    exact hmissed.trans fun _ htraced hp => hkeeps.readThrough htraced hp hbegan _
  · exact goes_of_closed htraced h rfl id

/-- **Step rule**: what each of the things an act does keeps is kept by every act. -/
theorem step {measures : Measures} {act : Act} {out : List ClosedPeriod} (hact : act.Admitted)
    (hstep : (folding measures).step fold act = some (out, after)) :
    Traced (released ++ out) after ∧ P (released ++ out) after := by
  cases act with
  | read event =>
    obtain ⟨rfl, rfl⟩ := Prod.mk.inj (some.inj hstep)
    obtain ⟨-, periods, hclosed, hafter⟩ := hkeeps.apply htraced h measures event
    rw [newlyClosed_of_append hclosed]
    exact hafter
  | refilled page until' =>
    obtain ⟨refilled, hrefill, heq⟩ := map_eq_some_iff.mp hstep
    obtain ⟨rfl, rfl⟩ := Prod.mk.inj heq
    rw [refill_eq, bind_eq_some_iff] at hrefill
    obtain ⟨through, hthrough, hpage⟩ := hrefill
    have hbegan : fold.began.isSome := htraced.sound.read (by rw [hthrough]; rfl)
    split at hpage
    · cases hpage
    · cases some.inj hpage
      have hbefore := hkeeps.beforePage htraced h hbegan through page
      obtain ⟨-, periods, hclosed, hafter⟩ := hbefore.trans fun _ htraced hp =>
        hkeeps.readPage htraced hp (hbefore.1 hbegan) measures page until'
      rw [newlyClosed_of_append hclosed]
      exact hafter
  | widened width =>
    obtain ⟨rfl, rfl⟩ := Prod.mk.inj (some.inj hstep)
    rw [append_nil]
    exact ⟨htraced.widen hact.1 hact.2, hkeeps.widen htraced h hact.1 hact.2⟩
  | numbersPositions contiguous =>
    obtain ⟨rfl, rfl⟩ := Prod.mk.inj (some.inj hstep)
    rw [append_nil]
    refine ⟨htraced.frame ?_ rfl rfl (fun _ hb => hb) fun _ _ _ _ => rfl,
      hkeeps.frame h rfl rfl rfl rfl rfl fun _ hb => hb⟩
    exact htraced.sound.mono rfl rfl rfl htraced.sound.read (fun _ hopen => .inl hopen)
      fun _ _ hroll => hroll
  | wroteGap gap =>
    obtain ⟨rfl, rfl⟩ := Prod.mk.inj (some.inj hstep)
    rw [append_nil]
    refine ⟨htraced.frame ?_ rfl rfl (fun _ hb => hb) fun _ _ _ _ => rfl,
      hkeeps.frame h rfl rfl rfl rfl rfl fun _ hb => hb⟩
    exact htraced.sound.mono rfl rfl rfl htraced.sound.read (fun _ hopen => .inl hopen)
      fun _ _ hroll => hroll
  | wrote =>
    dsimp only [folding] at hstep
    split at hstep
    · cases hstep
    · rename_i period rest hqueue
      obtain ⟨rfl, rfl⟩ := Prod.mk.inj (some.inj hstep)
      rw [append_nil, closed_written hqueue]
      exact ⟨htraced.written hqueue, hkeeps.frame h rfl rfl rfl rfl rfl fun _ hb => hb⟩

/-- **Run rule**: what each act keeps is kept by a run. -/
theorem run (measures : Measures) (acts : List Act) (hacts : ∀ act ∈ acts, act.Admitted) :
    Traced (released ++ (folding measures).emitted fold acts)
        ((folding measures).last fold acts) ∧
      P (released ++ (folding measures).emitted fold acts)
        ((folding measures).last fold acts) := by
  exact Machine.accum_run (M := folding measures)
    (fun released fold => Traced released fold ∧ P released fold) (fun _ act => act.Admitted)
    (fun _ _ _ _ _ hp hact hstep => hkeeps.step hp.1 hp.2 hact hstep) ⟨htraced, h⟩
    fun _ hst => hacts _ (Machine.input_mem_of_mem_run hst)

end

/-- **Notice rule**: what holds once the missing positions are noticed holds after the act. -/
theorem noticed_step {measures : Measures} {act : Act} {out : List ClosedPeriod} {gap : LogGap}
    (hgap : fold.missing act = some gap)
    (h : ∀ through position, P released (fold.missedBefore through position gap.until'))
    (hstep : (folding measures).step fold act = some (out, after)) : P (released ++ out) after := by
  obtain ⟨through, position, hthrough, -, hact⟩ := missing_cases measures hgap
  have hbegan : fold.began.isSome := htraced.sound.read (by rw [hthrough]; rfl)
  have hmissed : Goes P released fold (fold.missedBefore through position gap.until') :=
    goes_of_closed (htraced.missedBefore _ _ _) (h _ _) rfl id
  have hclosed : Goes P released fold after → out = newlyClosed fold after →
      P (released ++ out) after := by
    rintro ⟨-, periods, hperiods, -, hp⟩ rfl
    rw [newlyClosed_of_append hperiods]
    exact hp
  rcases hact with ⟨event, rfl, happly⟩ | ⟨page, until', rfl, hrefill⟩
  · obtain ⟨rfl, rfl⟩ := Prod.mk.inj (some.inj hstep)
    refine hclosed ?_ rfl
    rw [happly]
    exact hmissed.trans fun _ htraced hp => hkeeps.readOn htraced hp measures event
  · dsimp only [folding] at hstep
    rw [hrefill, map_some] at hstep
    obtain ⟨rfl, rfl⟩ := Prod.mk.inj (some.inj hstep)
    refine hclosed ?_ rfl
    have hbefore := hmissed.trans fun _ htraced hp =>
      hkeeps.readThrough htraced hp hbegan (some (position - 1))
    exact hbefore.trans fun _ htraced hp =>
      hkeeps.readPage htraced hp (hbefore.1 hbegan) measures page until'

end

end Keeps

end PeriodFold

end Aiwatcher.Periods
