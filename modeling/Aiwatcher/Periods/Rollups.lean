import Aiwatcher.Periods.Sound

/-!
# Aiwatcher.Periods.Rollups

The hours and days a fold holds, looked up by level and start: what adding a closed period to one
level changes (`rollupAt_addToLevel`), and what closing by an edge leaves (`rollupAt_dropEnded`)
and gives out (`mem_closedRollups_iff`).
-/

namespace Aiwatcher.Periods

open Library Option Table Std

namespace PeriodFold

/-- The hours and days held that do not end by an edge. -/
def dropEnded (edge : Int) (rollups : BTreeMap Int (BTreeMap Int Variants)) :
    BTreeMap Int (BTreeMap Int Variants) :=
  rollups.map fun level starts => Table.dropAll starts (endedBy edge level starts)

/-- The records of an hour or a day that is held. -/
def rollupAt (rollups : BTreeMap Int (BTreeMap Int Variants)) (level start : Int) :
    Option Variants :=
  rollups[level]?.bind fun starts => starts[start]?

variable {fold : PeriodFold} {rollups : BTreeMap Int (BTreeMap Int Variants)}
  {level start b edge : Int}

/-- A closed period is added to the one hour, or day, of a level that it lies in. -/
theorem rollupAt_addToLevel (rollups : BTreeMap Int (BTreeMap Int Variants))
    (b p l level start : Int) (variants : Variants) :
    rollupAt (addToLevel b p variants rollups l) level start =
      if l = level ∧ start = p / l * l ∧ b ≤ start then
        some ((BTreeMap.values variants).foldl (rolledUp level start)
          ((rollupAt rollups level start).getD ∅))
      else rollupAt rollups level start := by
  unfold addToLevel rollupAt
  dsimp only
  by_cases hb : p / l * l < b
  · rw [if_pos hb, if_neg]
    rintro ⟨-, hstart, hle⟩
    omega
  · rw [if_neg hb, getElem?_entry]
    by_cases hl : l = level
    · subst hl
      rw [if_pos rfl, bind_some, getElem?_entry]
      by_cases hs : p / l * l = start
      · subst hs
        rw [if_pos rfl, if_pos ⟨rfl, rfl, by omega⟩]
        cases rollups[l]? with
        | none => simp
        | some starts => rfl
      · rw [if_neg hs, if_neg fun h => hs h.2.1.symm]
        cases rollups[l]? with
        | none => simp
        | some starts => rfl
    · rw [if_neg hl, if_neg fun h => hl h.1]

theorem rollupAt_dropEnded (edge : Int) (rollups : BTreeMap Int (BTreeMap Int Variants))
    (level start : Int) : rollupAt (dropEnded edge rollups) level start =
      if start < edge ∧ start + level ≤ edge then none else rollupAt rollups level start := by
  unfold rollupAt dropEnded
  rw [ExtTreeMap.getElem?_map]
  cases rollups[level]? with
  | none => simp
  | some starts =>
    rw [map_some, bind_some, bind_some, getElem?_dropAll]
    by_cases hopen : (starts[start]?).isSome
    · simp only [mem_endedBy, hopen, true_and]
    · have hnone : starts[start]? = none := by simpa using hopen
      simp [mem_endedBy, hnone]

/-- What is closed of the hours and days is what is held of them and ends by the edge. -/
theorem mem_closedRollups_iff {through : Option Nat} {period : ClosedPeriod} :
    period ∈ closedRollups rollups through edge ↔
      (period.start < edge ∧ period.start + period.level ≤ edge) ∧
        ∃ variants, rollupAt rollups period.level period.start = some variants ∧
          period = ⟨period.level, period.start, BTreeMap.values variants, through⟩ := by
  simp only [closedRollups, List.mem_flatMap, List.mem_filterMap]
  constructor
  · rintro ⟨⟨level, starts⟩, hrow, start, hended, hclosed⟩
    rw [ExtTreeMap.mem_toList_iff_getElem?_eq_some] at hrow
    obtain ⟨variants, hvariants, rfl⟩ := map_eq_some_iff.mp hclosed
    refine ⟨(mem_endedBy.mp hended).2, variants, ?_, rfl⟩
    rw [rollupAt, hrow]
    exact hvariants
  · rintro ⟨hend, variants, hvariants, hperiod⟩
    obtain ⟨starts, hstarts, hstart⟩ := bind_eq_some_iff.mp hvariants
    refine ⟨(period.level, starts), ExtTreeMap.mem_toList_iff_getElem?_eq_some.mpr hstarts,
      period.start, mem_endedBy.mpr ⟨by rw [hstart]; rfl, hend⟩, ?_⟩
    rw [hstart, hperiod]
    rfl

end PeriodFold

end Aiwatcher.Periods
