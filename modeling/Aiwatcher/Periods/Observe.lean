import Aiwatcher.Periods.Fold

/-!
# Aiwatcher.Periods.Observe

What a window says of one variant (`observe` in `period_fold.rs`, `counted_since` and
`from_periods` in `observations.rs`): the parts of the records it counts, how many of them could
not vouch for their runs, and the gaps that reach it.
-/

namespace Aiwatcher.Periods

open Library List

/-! ## Parts -/

/-- What of a record starting at `start` a window counts that began at `since` in the period
starting at `edge`. -/
def partSince (start : Int) (figures : Figures) (slices : BTreeMap Nat Slice) (edge since : Int) :
    Option Figures :=
  if edge < start ∨ since ≤ edge then
    if edge ≤ start then some figures else none
  else if start < edge then none
  else
    some (((BTreeMap.values slices).filter fun slice => since < slice.stop).foldl
      (fun counted slice => counted.merge slice.figures) { complete := true })

namespace ObservedPeriod

/-- What of a record a window counts, each part with whether it is late. -/
def countedSince (record : ObservedPeriod) (edge since : Int) : List (Figures × Bool) :=
  ((partSince record.start record.figures record.slices edge since).map fun figures =>
    ({ figures with lateRuns := 0 }, false)).toList ++
  (BTreeMap.values record.late).filterMap fun late =>
    (partSince late.start late.figures late.slices edge since).map fun figures => (figures, true)

/-- The starts of the slices a window counts that began before it. -/
def straddles (record : ObservedPeriod) (edge since : Int) : List Int :=
  ((record.start, record.slices) ::
      (BTreeMap.values record.late).map fun late => (late.start, late.slices)).flatMap fun part =>
    if part.1 = edge ∧ edge < since then
      ((BTreeMap.values part.2).filter fun slice => slice.start < since ∧ since < slice.stop).map
        Slice.start
    else []

/-- Where counting really starts in a record that holds the window's start inside a slice. -/
def straddledFrom (record : ObservedPeriod) (edge since : Int) : Option Int :=
  (record.straddles edge since).min?

end ObservedPeriod

/-! ## A variant's window -/

/-- One part of a window's count; of its record only the figures are read. -/
structure CountedPart where
  figures : Figures
  written : Bool
  late : Bool

/-- What a window counted for one variant, before it is summed. -/
structure Counted where
  parts : List CountedPart := []
  /-- Written periods read. -/
  periods : Nat := 0
  running : Nat := 0
  countedFrom : Option Int := none
  beforeObservations : Bool := false
  missed : List LogGap := []

/-- Every gap written whose span reaches `since` or later, oldest first. -/
def gapsSince (kept : List LogGap) (since : Int) : List LogGap :=
  (kept.filter fun gap => since ≤ gap.until').insertionSort fun gap other =>
    gap.start < other.start ∨ gap.start = other.start ∧ gap.firstPosition ≤ other.firstPosition

namespace PeriodFold.Window

/-- The gaps a window names: those that are kept, and the fold's own. -/
def gaps (window : Window) (kept : List LogGap) : List LogGap :=
  window.missed.foldl (fun missed gap => if gap ∈ missed then missed else missed ++ [gap])
    (gapsSince kept window.since)

/-- One record read into a variant's count. -/
def count (window : Window) (written : Bool) (counted : Counted) (record : ObservedPeriod) :
    Counted :=
  { counted with
    periods := counted.periods + written.toNat
    countedFrom := match record.straddledFrom window.edge window.since with
      | some start => some ((counted.countedFrom.map (min · start)).getD start)
      | none => counted.countedFrom
    parts := counted.parts ++ (record.countedSince window.edge window.since).map fun part =>
      ⟨part.1, written, part.2⟩ }

/-- What a window counts of one variant, from the records of the store and those of the fold. -/
def observe (window : Window) (kept : List LogGap) (stored : List ObservedPeriod)
    (variantId : String) : Counted :=
  let own := fun (record : ObservedPeriod) => record.variantId == variantId
  let counted : Counted :=
    { running := (window.running[variantId]?).getD 0
      countedFrom := window.countedFrom
      beforeObservations := window.beforeBegan
      missed := window.gaps kept }
  (window.held.filter own).foldl (window.count false)
    ((stored.filter own).foldl (window.count true) counted)

end PeriodFold.Window

/-- Of the periods counted, those whose fold could not vouch it held every run that ended in
them. -/
def Counted.incompletePeriods (counted : Counted) : Nat :=
  (counted.parts.filter fun part => !part.late && !part.figures.complete).length

/-! ## What it says -/

namespace PeriodFold.Window

variable {window : Window} {record : ObservedPeriod}

variable (written : Bool)

theorem missed_foldl_count (records : List ObservedPeriod) (counted : Counted) :
    (records.foldl (window.count written) counted).missed = counted.missed := by
  induction records generalizing counted with
  | nil => rfl
  | cons record rest ih => exact ih (window.count written counted record)

theorem mem_parts_foldl_count {part : CountedPart} (records : List ObservedPeriod)
    {counted : Counted} (h : part ∈ counted.parts) :
    part ∈ (records.foldl (window.count written) counted).parts := by
  induction records generalizing counted with
  | nil => exact h
  | cons record rest ih => exact ih (mem_append_left _ h)

theorem mem_parts_of_mem {part : Figures × Bool} {records : List ObservedPeriod}
    (hrecord : record ∈ records) (hpart : part ∈ record.countedSince window.edge window.since)
    (counted : Counted) : ⟨part.1, written, part.2⟩ ∈
      (records.foldl (window.count written) counted).parts := by
  induction records generalizing counted with
  | nil => cases hrecord
  | cons first rest ih =>
    rcases mem_cons.mp hrecord with rfl | hrest
    · refine mem_parts_foldl_count written rest (mem_append_right _ ?_)
      exact mem_map.mpr ⟨part, hpart, rfl⟩
    · exact ih hrest _

theorem mem_parts_observe {part : Figures × Bool} {stored : List ObservedPeriod}
    (hrecord : record ∈ stored ∨ record ∈ window.held)
    (hpart : part ∈ record.countedSince window.edge window.since) (kept : List LogGap) :
    ∃ counted ∈ (window.observe kept stored record.variantId).parts,
      counted.figures = part.1 ∧ counted.late = part.2 := by
  unfold observe
  rcases hrecord with hstored | hheld
  · have hown : record ∈ stored.filter fun own => own.variantId == record.variantId :=
      mem_filter.mpr ⟨hstored, by simp⟩
    exact ⟨_, mem_parts_foldl_count false _ (mem_parts_of_mem true hown hpart _), rfl, rfl⟩
  · have hown : record ∈ window.held.filter fun own => own.variantId == record.variantId :=
      mem_filter.mpr ⟨hheld, by simp⟩
    exact ⟨_, mem_parts_of_mem false hown hpart _, rfl, rfl⟩

theorem incompletePeriods_observe {stored : List ObservedPeriod}
    (hrecord : record ∈ stored ∨ record ∈ window.held)
    (hmark : record.figures.complete = false)
    (hwhole : window.edge < record.start ∨ record.start = window.edge ∧ window.since ≤ window.edge)
    (kept : List LogGap) :
    0 < (window.observe kept stored record.variantId).incompletePeriods := by
  have hpart : ({ record.figures with lateRuns := 0 }, false) ∈
      record.countedSince window.edge window.since := by
    have hsome : partSince record.start record.figures record.slices window.edge window.since =
        some record.figures := by
      unfold partSince
      rw [if_pos (by omega), if_pos (by omega)]
    rw [ObservedPeriod.countedSince, hsome]
    exact mem_append_left _ mem_cons_self
  obtain ⟨part, hmem, hfigures, hlate⟩ := mem_parts_observe hrecord hpart kept
  exact length_pos_of_mem (mem_filter.mpr ⟨hmem, by simp [hfigures, hlate, hmark]⟩)

theorem mem_foldl_gaps {gap : LogGap} (missed known : List LogGap) :
    gap ∈ missed.foldl (fun known gap => if gap ∈ known then known else known ++ [gap]) known ↔
      gap ∈ known ∨ gap ∈ missed := by
  induction missed generalizing known with
  | nil => simp
  | cons first rest ih =>
    rw [foldl_cons, ih]
    split <;> grind

theorem mem_missed_observe {gap : LogGap} {kept : List LogGap}
    (h : gap ∈ kept ∧ window.since ≤ gap.until' ∨ gap ∈ window.missed)
    (stored : List ObservedPeriod) (variantId : String) :
    gap ∈ (window.observe kept stored variantId).missed := by
  unfold observe
  rw [missed_foldl_count, missed_foldl_count]
  unfold gaps gapsSince
  rw [mem_foldl_gaps, mem_insertionSort, mem_filter]
  simpa using h

end PeriodFold.Window

end Aiwatcher.Periods
