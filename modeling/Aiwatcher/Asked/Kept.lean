import Aiwatcher.Asked.Index

/-!
# Aiwatcher.Asked.Kept

Counts that are written down read back as they were (`fromKept_kept`): within the bounds the
fold keeps to, nothing else of a count is held than what its stretches say.
-/

namespace Aiwatcher.Asked

open Library List Option Table MeasuredState

/-! ## What the fold keeps to -/

/-- A count's numbers are tracked ones, and it says how many there are and the highest. -/
structure Count.Lawful (count : Count) : Prop where
  below : ∀ number ∈ count.seen, number < mostNumbers
  arrived : count.arrived = count.seen.size
  nothing : count.highest = none → ∀ number : Nat, number ∉ count.seen
  highest : ∀ number, count.highest = some number →
    number ∈ count.seen ∧ ∀ other ∈ count.seen, other ≤ number

structure Measurement.Lawful (measurement : Measurement) : Prop where
  size : measurement.counts.size ≤ mostCounts
  counts : ∀ (key : CountKey) (count : Count), measurement.counts[key]? = some count →
    count.Lawful

/-- The measurements are within their bounds, and one of them was heard from last. -/
structure MeasuredState.Lawful (state : MeasuredState) : Prop where
  size : state.measurements.size ≤ mostMeasurements
  measurements : ∀ (key : MeasuredKey) (measurement : Measurement),
    state.measurements[key]? = some measurement → measurement.Lawful ∧
      measurement.heard ≤ state.heard ∧ key.scope = Periods.keyOf measurement.project
  heard : state.heard = 0 ∨ ∃ (key : MeasuredKey) (measurement : Measurement),
    state.measurements[key]? = some measurement ∧ measurement.heard = state.heard

/-! ## Counts -/

namespace Count

variable {count other : Count}

theorem lawful_empty (counted : Option Nat) (overflowed : Bool) :
    Lawful { counted, overflowed } where
  below := by simp
  arrived := by simp
  nothing := by simp
  highest := by simp

theorem Lawful.ext (h : count.Lawful) (hother : other.Lawful) (hseen : count.seen = other.seen)
    (hcounted : count.counted = other.counted)
    (hoverflowed : count.overflowed = other.overflowed) : count = other := by
  have hhighest : count.highest = other.highest := by
    have hnothing := h.nothing
    have htop := h.highest
    rw [hseen] at hnothing htop
    cases hhigh : count.highest with
    | none =>
      cases hhigh' : other.highest with
      | none => rfl
      | some top => exact absurd (hother.highest top hhigh').1 (hnothing hhigh top)
    | some top =>
      obtain ⟨hmem, hle⟩ := htop top hhigh
      cases hhigh' : other.highest with
      | none => exact absurd hmem (hother.nothing hhigh' top)
      | some top' =>
        obtain ⟨hmem', hle'⟩ := hother.highest top' hhigh'
        rw [Nat.le_antisymm (hle' top hmem) (hle top' hmem')]
  have harrived : count.arrived = other.arrived := by rw [h.arrived, hother.arrived, hseen]
  cases count
  cases other
  simp_all

theorem started_of_lt (count : Count) {number : Nat} (h : number < mostNumbers) :
    count.started number =
      { count with
        seen := count.seen.insert number ()
        arrived := if count.seen.contains number then count.arrived else count.arrived + 1
        highest := some ((count.highest.map (max · number)).getD number) } := by
  rw [started, if_neg (by omega)]

theorem Lawful.started (h : count.Lawful) (number : Nat) : (count.started number).Lawful := by
  by_cases htracked : mostNumbers ≤ number
  · rw [Count.started, if_pos htracked]
    exact ⟨h.below, h.arrived, h.nothing, h.highest⟩
  · rw [started_of_lt count (by omega)]
    constructor
    · simp only [Std.ExtTreeMap.mem_insert, Std.LawfulEqCmp.compare_eq_iff_eq]
      rintro other (rfl | hother)
      · omega
      · exact h.below other hother
    · simp only [Std.ExtTreeMap.size_insert, h.arrived, Std.ExtTreeMap.contains_iff_mem]
    · simp
    · intro top htop
      simp only [Std.ExtTreeMap.mem_insert, Std.LawfulEqCmp.compare_eq_iff_eq]
      cases hhigh : count.highest with
      | none =>
        simp only [hhigh, map_none, getD_none, some.injEq] at htop
        have hnone := h.nothing hhigh
        grind
      | some before =>
        simp only [hhigh, map_some, getD_some, some.injEq] at htop
        obtain ⟨hmem, hle⟩ := h.highest before hhigh
        grind

theorem foldl_started {numbers : List Nat} (h : ∀ number ∈ numbers, number < mostNumbers)
    (hcount : count.Lawful) :
    (numbers.foldl started count).Lawful ∧
      (numbers.foldl started count).counted = count.counted ∧
      (numbers.foldl started count).overflowed = count.overflowed ∧
      ∀ number : Nat, number ∈ (numbers.foldl started count).seen ↔
        number ∈ count.seen ∨ number ∈ numbers := by
  induction numbers generalizing count with
  | nil => simp [hcount]
  | cons first numbers ih =>
    obtain ⟨hlawful, hcounted, hoverflowed, hseen⟩ :=
      ih (fun number hmem => h number (mem_cons_of_mem _ hmem)) (hcount.started first)
    rw [foldl_cons]
    have hfirst := started_of_lt count (h first mem_cons_self)
    refine ⟨hlawful, by rw [hcounted, hfirst], by rw [hoverflowed, hfirst], fun number => ?_⟩
    rw [hseen, hfirst]
    simp only [Std.ExtTreeMap.mem_insert, Std.LawfulEqCmp.compare_eq_iff_eq, mem_cons]
    grind

theorem foldl_restoreStretch {pairs : List (Nat × Nat)}
    (h : ∀ stretch ∈ pairs, stretch.1 ≤ stretch.2 ∧ stretch.2 < mostNumbers) :
    pairs.foldl restoreStretch count = (pairs.flatMap expand).foldl started count := by
  induction pairs generalizing count with
  | nil => rfl
  | cons stretch pairs ih =>
    obtain ⟨hle, hlt⟩ := h stretch mem_cons_self
    have hstretch : restoreStretch count stretch = (expand stretch).foldl started count := by
      unfold restoreStretch
      rw [if_neg (by simp; omega)]
    rw [foldl_cons, ih (fun other hmem => h other (mem_cons_of_mem _ hmem)),
      flatMap_cons, foldl_append, hstretch]

end Count

theorem restoreCount_keptCount {row : CountKey × Count} (h : row.2.Lawful) :
    restoreCount (keptCount row) = row := by
  obtain ⟨key, count⟩ := row
  have hpairs : ∀ stretch ∈ stretches count.seen.keys,
      stretch.1 ≤ stretch.2 ∧ stretch.2 < mostNumbers := fun stretch hmem =>
    ⟨le_of_mem_stretches hmem,
      h.below _ (Std.ExtTreeMap.mem_keys.mp (last_mem_of_mem_stretches hmem))⟩
  simp only [restoreCount, keptCount, Count.foldl_restoreStretch hpairs, expand_stretches]
  have hbelow : ∀ number ∈ count.seen.keys, number < mostNumbers := fun number hmem =>
    h.below number (Std.ExtTreeMap.mem_keys.mp hmem)
  obtain ⟨hlawful, hcounted, hoverflowed, hseen⟩ :=
    Count.foldl_started hbelow (Count.lawful_empty count.counted count.overflowed)
  rw [hlawful.ext h _ hcounted hoverflowed]
  apply Std.ExtTreeMap.ext_mem_unit
  intro number
  simp [hseen]

/-! ## Measurements -/

theorem restoreMeasurement_keptMeasurement {row : MeasuredKey × Measurement} (h : row.2.Lawful)
    (hscope : row.1.scope = Periods.keyOf row.2.project) :
    restoreMeasurement (keptMeasurement row) = row := by
  obtain ⟨key, measurement⟩ := row
  have hrestored : measurement.counts.toList.map (restoreCount ∘ keptCount) =
      measurement.counts.toList := by
    conv_rhs => rw [← map_id measurement.counts.toList]
    apply map_congr_left
    intro row hmem
    exact restoreCount_keptCount
      (h.counts row.1 row.2 (Std.ExtTreeMap.mem_toList_iff_getElem?_eq_some.mp hmem))
  have hlength : (measurement.counts.toList.map keptCount).length ≤ mostCounts := by
    simpa [Std.ExtTreeMap.length_toList] using h.size
  simp only [restoreMeasurement, keptMeasurement, take_of_length_le hlength, List.map_map,
    hrestored, Table.foldl_insert_of_perm (List.Perm.refl _), ← hscope]

theorem foldl_max_heard {kept : List KeptMeasurement} {start top : Nat} (hstart : start ≤ top)
    (hle : ∀ measurement ∈ kept, measurement.heard ≤ top)
    (htop : start = top ∨ ∃ measurement ∈ kept, measurement.heard = top) :
    kept.foldl (fun heard measurement => max heard measurement.heard) start = top := by
  induction kept generalizing start with
  | nil => simpa using htop
  | cons first kept ih =>
    have hfirst := hle first mem_cons_self
    rw [foldl_cons]
    apply ih (by omega) fun other hmem => hle other (mem_cons_of_mem _ hmem)
    rcases htop with rfl | ⟨other, hmem, rfl⟩
    · left
      omega
    · rcases mem_cons.mp hmem with rfl | hmem
      · left
        omega
      · exact .inr ⟨other, hmem, rfl⟩

/-- **Counts read back** are the counts that were written down. -/
theorem fromKept_kept {state : MeasuredState} (h : state.Lawful) :
    fromKept state.kept = state := by
  have hperm : (state.kept.insertionSort fun a b => b.heard ≤ a.heard).Perm state.kept :=
    perm_insertionSort _ _
  have hlength : (state.kept.insertionSort fun a b => b.heard ≤ a.heard).length ≤
      mostMeasurements := by
    simpa [kept, hperm.length_eq, Std.ExtTreeMap.length_toList] using h.size
  have hrows : state.kept.map restoreMeasurement = state.measurements.toList := by
    rw [kept, List.map_map]
    conv_rhs => rw [← map_id state.measurements.toList]
    apply map_congr_left
    intro row hmem
    obtain ⟨hlawful, -, hscope⟩ := h.measurements row.1 row.2
      (Std.ExtTreeMap.mem_toList_iff_getElem?_eq_some.mp hmem)
    exact restoreMeasurement_keptMeasurement hlawful hscope
  unfold fromKept
  dsimp only
  rw [take_of_length_le hlength]
  have hmeasurements := Table.foldl_insert_of_perm
    ((hperm.map restoreMeasurement).trans (.of_eq hrows))
  have hheard : (state.kept.insertionSort fun a b => b.heard ≤ a.heard).foldl
      (fun heard measurement => max heard measurement.heard) 0 = state.heard := by
    apply foldl_max_heard (Nat.zero_le _)
    · intro measurement hmem
      obtain ⟨row, hrow, rfl⟩ := mem_map.mp (hperm.mem_iff.mp hmem)
      exact (h.measurements row.1 row.2
        (Std.ExtTreeMap.mem_toList_iff_getElem?_eq_some.mp hrow)).2.1
    · rcases h.heard with hzero | ⟨key, measurement, hrow, hheard⟩
      · exact .inl hzero.symm
      · exact .inr ⟨keptMeasurement (key, measurement), hperm.mem_iff.mpr (mem_map_of_mem
          (Std.ExtTreeMap.mem_toList_iff_getElem?_eq_some.mpr hrow)), hheard⟩
  rw [hmeasurements, hheard]

/-! ## Reading keeps the bounds -/

theorem Count.Lawful.change {event : RecordedEvent} {change : Count → Count} {count : Count}
    (h : count.Lawful) (hchange : measures event = some change) : (change count).Lawful := by
  unfold measures at hchange
  split at hchange
  · obtain ⟨number, -, rfl⟩ := map_eq_some_iff.mp hchange
    exact h.started _
  · obtain ⟨runs, -, rfl⟩ := map_eq_some_iff.mp hchange
    exact ⟨h.below, h.arrived, h.nothing, h.highest⟩
  · cases hchange

theorem size_entry_le {κ β : Type} [Ord κ] [Std.TransOrd κ] [Std.LawfulEqOrd κ] [DecidableEq κ]
    {table : BTreeMap κ β} {key : κ} {new : β} {change : β → β} {most : Nat}
    (h : table.size ≤ most) (hroom : table.contains key = true ∨ table.size < most) :
    (Table.entry table key new change).size ≤ most := by
  simp only [Table.entry, Std.ExtTreeMap.size_insert]
  split <;> grind

theorem Measurement.Lawful.counted {measurement : Measurement} (h : measurement.Lawful)
    (key : CountKey) {event : RecordedEvent} {change : Count → Count}
    (hchange : measures event = some change) :
    (counted measurement key change).Lawful := by
  unfold MeasuredState.counted
  split
  · exact h
  · rename_i hroom
    constructor
    · apply size_entry_le h.size
      simp only [Bool.and_eq_true, Bool.not_eq_eq_eq_not, Bool.not_true, decide_eq_true_eq,
        not_and] at hroom
      by_cases hmem : measurement.counts.contains key = true
      · exact .inl hmem
      · exact .inr (by simpa [hmem] using hroom)
    · intro k count hcount
      rw [getElem?_entry] at hcount
      split at hcount
      · rename_i heq
        cases hcount
        cases hheld : measurement.counts[key]? with
        | none => exact (Count.lawful_empty none false).change hchange
        | some held => exact (h.counts key held hheld).change hchange
      · exact h.counts k count hcount

theorem oldest_mem {measurements : BTreeMap MeasuredKey Measurement}
    (h : 0 < measurements.size) : ∃ key, oldest measurements = some key ∧ key ∈ measurements := by
  have hfold : ∀ (rows : List (MeasuredKey × Measurement)) best,
      (∀ row, best = some row → row ∈ measurements.toList) →
      (∀ row ∈ rows, row ∈ measurements.toList) → (best.isSome ∨ rows ≠ []) →
      ∃ row ∈ measurements.toList, rows.foldl earlier best = some row := by
    intro rows
    induction rows with
    | nil =>
      intro best hbest _ hsome
      obtain ⟨row, rfl⟩ := isSome_iff_exists.mp (by simpa using hsome)
      exact ⟨row, hbest row rfl, rfl⟩
    | cons first rows ih =>
      intro best hbest hrows _
      have hfirst := hrows first mem_cons_self
      apply ih _ _ (fun row hmem => hrows row (mem_cons_of_mem _ hmem))
      · cases best <;> grind [earlier]
      · cases best <;> grind [earlier]
  have hne : measurements.toList ≠ [] := by
    intro hnil
    have hlength : measurements.toList.length = measurements.size := Std.ExtTreeMap.length_toList
    rw [hnil] at hlength
    simp at hlength
    omega
  obtain ⟨row, hmem, hrow⟩ := hfold measurements.toList none (by simp) (fun _ h => h) (.inr hne)
  refine ⟨row.1, by rw [oldest, hrow]; rfl, ?_⟩
  exact Std.ExtTreeMap.mem_iff_isSome_getElem?.mpr
    (by rw [Std.ExtTreeMap.mem_toList_iff_getElem?_eq_some.mp hmem]; rfl)

namespace MeasuredState

variable {state : MeasuredState} {event : RecordedEvent}

theorem room_size (h : state.measurements.size ≤ mostMeasurements) (key : MeasuredKey) :
    (state.room key).size ≤ mostMeasurements ∧
      ((state.room key).contains key = true ∨ (state.room key).size < mostMeasurements) := by
  unfold room
  split
  · rename_i hfull
    simp only [Bool.and_eq_true, Bool.not_eq_eq_eq_not, Bool.not_true, decide_eq_true_eq] at hfull
    have hpos : 0 < state.measurements.size := by simp only [mostMeasurements] at hfull; omega
    obtain ⟨old, hold, hmem⟩ := oldest_mem hpos
    rw [hold, elim_some, Std.ExtTreeMap.size_erase, if_pos (by simpa using hmem)]
    exact ⟨by omega, .inr (by omega)⟩
  · rename_i hroom
    simp only [Bool.and_eq_true, Bool.not_eq_eq_eq_not, Bool.not_true, decide_eq_true_eq,
      not_and, Nat.not_le] at hroom
    refine ⟨h, ?_⟩
    by_cases hmem : state.measurements.contains key = true
    · exact .inl hmem
    · exact .inr (hroom (Bool.eq_false_iff.mpr hmem))

theorem getElem?_room {key k : MeasuredKey} {measurement : Measurement}
    (h : (state.room key)[k]? = some measurement) : state.measurements[k]? = some measurement := by
  unfold room at h
  split at h
  · cases hold : oldest state.measurements with
    | none => rwa [hold] at h
    | some old =>
      rw [hold, elim_some] at h
      exact (of_erase h).2
  · exact h

theorem Lawful.apply (h : state.Lawful) (event : RecordedEvent) : (state.apply event).Lawful := by
  unfold MeasuredState.apply
  split
  · rename_i evaluationId client change _ _ hchange
    dsimp only
    generalize hkey : (⟨Periods.keyOf event.metadata.project, evaluationId⟩ : MeasuredKey) = key
    obtain ⟨hsize, hroom⟩ := room_size h.size key
    constructor
    · exact size_entry_le hsize hroom
    · intro k measurement hmeasurement
      rw [getElem?_entry] at hmeasurement
      split at hmeasurement
      · rename_i heq
        cases hmeasurement
        have hheld : ∀ held : Measurement, ((state.room key)[key]?).getD {} = held →
            held.Lawful := by
          rintro held rfl
          cases hrow : (state.room key)[key]? with
          | none => exact ⟨by simp [mostCounts], by simp⟩
          | some held => exact (h.measurements key held (getElem?_room hrow)).1
        generalize ((state.room key)[key]?).getD {} = held at hheld
        have hlawful : Measurement.Lawful
            { held with project := event.metadata.project, heard := state.heard + 1 } :=
          ⟨(hheld held rfl).size, (hheld held rfl).counts⟩
        refine ⟨hlawful.counted _ hchange, ?_, ?_⟩
        · unfold counted
          split <;> exact le_refl _
        · rw [← heq, ← hkey]
          unfold counted
          split <;> rfl
      · obtain ⟨hlawful, hheard, hscope⟩ := h.measurements k measurement (getElem?_room hmeasurement)
        exact ⟨hlawful, by dsimp only; omega, hscope⟩
    · refine .inr ⟨key, _, by rw [getElem?_entry, if_pos rfl], ?_⟩
      unfold counted
      split <;> rfl
  · exact h

theorem lawful_new : Lawful {} where
  size := by simp [mostMeasurements]
  measurements := by simp
  heard := .inl rfl

end MeasuredState

end Aiwatcher.Asked
