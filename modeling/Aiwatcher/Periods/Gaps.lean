import Aiwatcher.Periods.Observe
import Aiwatcher.Periods.Rollups
import Aiwatcher.Periods.Walk

/-!
# Aiwatcher.Periods.Gaps

What becomes of a gap: the records of the open periods it reaches say that they are incomplete,
now and once they are closed, and so do the hours and days that were held or that add such a
record up (`gaps_are_marked`).

An hour or a day that is not held when the gap is noticed, a period closed before, and the seconds
of a period past the gap's end are not marked (`gaps_leave_unmarked`).
-/

namespace Aiwatcher.Periods

open Library List Table Std

/-- Whether a period `[start, stop)` reaches the interval a gap lies in. -/
def LogGap.Reaches (gap : LogGap) (start stop : Int) : Prop :=
  start ≤ gap.until' ∧ gap.start < stop

instance (gap : LogGap) (start stop : Int) : Decidable (gap.Reaches start stop) :=
  inferInstanceAs (Decidable (_ ∧ _))

/-- What a record is held under. -/
def ObservedPeriod.key (record : ObservedPeriod) : String := keyed record.project record.variantId

namespace PeriodFold

/-! ## Records of hours and days -/

/-- The record of an hour or a day held under a name. -/
def rollupRecord (rollups : BTreeMap Int (BTreeMap Int Variants)) (level start : Int)
    (name : String) : Option ObservedPeriod :=
  (rollupAt rollups level start).bind fun variants => variants[name]?

/-- The record under a name says that it is incomplete. -/
def Incomplete (variants : Variants) (name : String) : Prop :=
  ∃ record, variants[name]? = some record ∧ record.figures.complete = false

/-- The record of an hour or a day is held, and says that it is incomplete. -/
def HeldIncomplete (rollups : BTreeMap Int (BTreeMap Int Variants)) (level start : Int)
    (name : String) : Prop :=
  ∃ record, rollupRecord rollups level start name = some record ∧ record.figures.complete = false

/-- Every record of an hour or a day is held under its own name. -/
def Filed (rollups : BTreeMap Int (BTreeMap Int Variants)) : Prop :=
  ∀ level start name record, rollupRecord rollups level start name = some record →
    record.key = name

/-- The record of an hour or a day is incomplete: it is held so, or was closed so. -/
def Stays (closed : List ClosedPeriod) (rollups : BTreeMap Int (BTreeMap Int Variants))
    (level start : Int) (name : String) : Prop :=
  HeldIncomplete rollups level start name ∨
    ∃ period ∈ closed, period.level = level ∧ period.start = start ∧
      ∃ record ∈ period.records, record.key = name ∧ record.figures.complete = false

/-- What one element of a list brings about, and the others keep, a fold over it leaves. -/
theorem foldl_of_mem {α β : Type} {op : β → α → β} (P : β → Prop) {xs : List α} {a : α}
    (hmem : a ∈ xs) (hset : ∀ into, P (op into a)) (hkeep : ∀ into x, P into → P (op into x))
    (into : β) : P (xs.foldl op into) := by
  induction xs generalizing into with
  | nil => cases hmem
  | cons x rest ih =>
    rcases mem_cons.mp hmem with rfl | hrest
    · exact List.foldlRecOn (motive := P) rest op (hset into) fun into hinto x _ =>
        hkeep into x hinto
    · exact ih hrest _

section Rolling

variable {fold : PeriodFold} {rollups : BTreeMap Int (BTreeMap Int Variants)}
  {level start b : Int} {name : String}

theorem complete_merge (figures other : Figures) :
    (figures.merge other).complete = (figures.complete && other.complete) := rfl

variable {record : ObservedPeriod}

theorem complete_counted (h : record.figures.complete = false)
    (endedIn endedWidth openFrom offset : Int) (run : Figures) :
    (record.counted endedIn endedWidth openFrom offset run).figures.complete = false := by
  unfold ObservedPeriod.counted
  split
  · exact h
  · simp [complete_merge, h]

theorem incomplete_rolledUp {into : Variants} (h : Incomplete into name) (level start : Int)
    (record : ObservedPeriod) : Incomplete (rolledUp level start into record) name := by
  obtain ⟨held, hheld, hmark⟩ := h
  simp only [Incomplete, rolledUp, getElem?_entry]
  split
  · rename_i hkey
    subst hkey
    simp [hheld, ObservedPeriod.mergeLate, ObservedPeriod.merge, complete_merge, hmark]
  · exact ⟨held, hheld, hmark⟩

theorem incomplete_rolledUp_self (into : Variants) (level start : Int)
    (h : record.figures.complete = false) :
    Incomplete (rolledUp level start into record) record.key := by
  simp [Incomplete, rolledUp, getElem?_entry, ObservedPeriod.key, ObservedPeriod.mergeLate,
    ObservedPeriod.merge, complete_merge, h]

theorem incomplete_foldl_rolledUp (into : Variants) (level start : Int)
    {records : List ObservedPeriod} (hmem : record ∈ records)
    (h : record.figures.complete = false) :
    Incomplete (records.foldl (rolledUp level start) into) record.key :=
  foldl_of_mem (Incomplete · record.key) hmem
    (fun into => incomplete_rolledUp_self into level start h)
    (fun _ other hinto => incomplete_rolledUp hinto level start other) into

theorem filed_rolledUp {into : Variants}
    (h : ∀ (name : String) (record : ObservedPeriod), into[name]? = some record →
      record.key = name) (level start : Int) (records : List ObservedPeriod) :
    ∀ (name : String) (record : ObservedPeriod),
      (records.foldl (rolledUp level start) into)[name]? = some record → record.key = name := by
  induction records generalizing into with
  | nil => exact h
  | cons first rest ih =>
    refine ih fun name record hrecord => ?_
    rw [rolledUp, getElem?_entry] at hrecord
    split at hrecord
    · rename_i hkey
      subst hkey
      cases hinto : into[keyed first.project first.variantId]? with
      | none =>
        rw [hinto] at hrecord
        cases hrecord
        rfl
      | some held =>
        rw [hinto] at hrecord
        cases hrecord
        exact h _ held hinto
    · exact h name record hrecord

theorem rollupRecord_eq (rollups : BTreeMap Int (BTreeMap Int Variants)) (level start : Int)
    (name : String) :
    rollupRecord rollups level start name = ((rollupAt rollups level start).getD ∅)[name]? := by
  unfold rollupRecord
  cases rollupAt rollups level start with
  | none => simp
  | some variants => rfl

theorem rollupRecord_addToLevel (rollups : BTreeMap Int (BTreeMap Int Variants))
    (b p l level start : Int) (variants : Variants) (name : String) :
    rollupRecord (addToLevel b p variants rollups l) level start name =
      if l = level ∧ start = p / l * l ∧ b ≤ start then
        ((BTreeMap.values variants).foldl (rolledUp level start)
          ((rollupAt rollups level start).getD ∅))[name]?
      else rollupRecord rollups level start name := by
  rw [rollupRecord, rollupAt_addToLevel]
  split
  · rfl
  · rfl

theorem HeldIncomplete.addToLevel (h : HeldIncomplete rollups level start name) (b p l : Int)
    (variants : Variants) : HeldIncomplete (addToLevel b p variants rollups l) level start name := by
  obtain ⟨record, hrecord, hmark⟩ := h
  unfold HeldIncomplete
  rw [rollupRecord_addToLevel]
  split
  · rw [rollupRecord_eq] at hrecord
    exact List.foldlRecOn (motive := fun into => Incomplete into name) _ _ ⟨record, hrecord, hmark⟩
      fun _ hinto other _ => incomplete_rolledUp hinto level start other
  · exact ⟨record, hrecord, hmark⟩

theorem heldIncomplete_addToLevel {p : Int} {variants : Variants}
    (hmem : record ∈ BTreeMap.values variants) (h : record.figures.complete = false)
    (hb : b ≤ p / level * level) (rollups : BTreeMap Int (BTreeMap Int Variants)) :
    HeldIncomplete (addToLevel b p variants rollups level) level (p / level * level)
      record.key := by
  unfold HeldIncomplete
  rw [rollupRecord_addToLevel, if_pos ⟨rfl, rfl, hb⟩]
  exact incomplete_foldl_rolledUp _ level _ hmem h

theorem Filed.addToLevel (h : Filed rollups) (b p l : Int) (variants : Variants) :
    Filed (addToLevel b p variants rollups l) := by
  intro level start name record hrecord
  rw [rollupRecord_addToLevel] at hrecord
  split at hrecord
  · refine filed_rolledUp (fun name record hinto => ?_) level start _ name record hrecord
    exact h level start name record (by rw [rollupRecord_eq]; exact hinto)
  · exact h level start name record hrecord

theorem HeldIncomplete.rolling (h : HeldIncomplete rollups level start name) (b p : Int) :
    HeldIncomplete (fold.rolling b rollups p) level start name := by
  unfold PeriodFold.rolling
  split
  · exact h
  · exact List.foldlRecOn (motive := fun rollups => HeldIncomplete rollups level start name) _ _ h
      fun _ hheld l _ => hheld.addToLevel b p l _

theorem Filed.rolling (h : Filed rollups) (b p : Int) : Filed (fold.rolling b rollups p) := by
  unfold PeriodFold.rolling
  split
  · exact h
  · exact List.foldlRecOn (motive := Filed) _ _ h fun _ hfiled l _ => hfiled.addToLevel b p l _

theorem heldIncomplete_rolling {p : Int} {period : ClosedPeriod}
    (hclosed : fold.closedBase p = some period) (hmem : record ∈ period.records)
    (h : record.figures.complete = false) (hlevel : level ∈ fold.rollupLevels p)
    (hb : b ≤ p / level * level) (rollups : BTreeMap Int (BTreeMap Int Variants)) :
    HeldIncomplete (fold.rolling b rollups p) level (p / level * level) record.key := by
  obtain ⟨variants, hvariants, rfl⟩ := Option.map_eq_some_iff.mp hclosed
  unfold PeriodFold.rolling
  rw [hvariants]
  exact foldl_of_mem (HeldIncomplete · level (p / level * level) record.key) hlevel
    (fun rollups => heldIncomplete_addToLevel hmem h hb rollups)
    (fun _ l hheld => hheld.addToLevel b p l variants) rollups

theorem rollupRecord_dropEnded (edge : Int) (rollups : BTreeMap Int (BTreeMap Int Variants))
    (level start : Int) (name : String) : rollupRecord (dropEnded edge rollups) level start name =
      if start < edge ∧ start + level ≤ edge then none
      else rollupRecord rollups level start name := by
  rw [rollupRecord, rollupAt_dropEnded]
  split
  · rfl
  · rfl

theorem HeldIncomplete.closing (h : HeldIncomplete rollups level start name)
    (hfiled : Filed rollups) (edge : Int) (through : Option Nat) :
    Stays (closedRollups rollups through edge) (dropEnded edge rollups) level start name := by
  obtain ⟨record, hrecord, hmark⟩ := h
  by_cases hend : start < edge ∧ start + level ≤ edge
  · have hkey := hfiled level start name record hrecord
    obtain ⟨variants, hvariants, hname⟩ := Option.bind_eq_some_iff.mp hrecord
    refine .inr ⟨⟨level, start, BTreeMap.values variants, through⟩, ?_, rfl, rfl, record,
      BTreeMap.mem_values.mpr ⟨name, hname⟩, hkey, hmark⟩
    exact mem_closedRollups_iff.mpr ⟨hend, variants, hvariants, rfl⟩
  · refine .inl ⟨record, ?_, hmark⟩
    rw [rollupRecord_dropEnded, if_neg hend]
    exact hrecord

theorem Filed.dropEnded (h : Filed rollups) (edge : Int) : Filed (dropEnded edge rollups) := by
  intro level start name record hrecord
  rw [rollupRecord_dropEnded] at hrecord
  split at hrecord
  · cases hrecord
  · exact h level start name record hrecord

end Rolling

/-! ## Marks -/

/-- The record of an open period held under a name. -/
def openRecord (fold : PeriodFold) (start : Int) (name : String) : Option ObservedPeriod :=
  fold.openPeriods[start]?.bind fun variants => variants[name]?

/-- What a gap leaves in a fold and in what it has closed since, the first `n` periods being closed
before: what says it is incomplete of the periods it reaches, and of the hours and days that are
due to. -/
structure Marks (n : Nat) (gap : LogGap) (b : Int) (due : Int → Int → String → Prop)
    (released : List ClosedPeriod) (fold : PeriodFold) : Prop where
  filed : Filed fold.rollups
  long : n ≤ released.length
  began : fold.began = some b
  remembered : (gap.start, gap.until') ∈ fold.missedSpans ∨
    ∃ c, fold.closedThrough = some c ∧ gap.until' < c
  opened : ∀ start name record, openRecord fold start name = some record →
    gap.Reaches start (start + fold.widthAt start) → record.figures.complete = false
  closed : ∀ period ∈ released.drop n, fold.isBase period = true →
    gap.Reaches period.start (period.start + period.level) →
    ∀ record ∈ period.records, record.figures.complete = false
  rolled : ∀ level start name, due level start name →
    Stays (released.drop n) fold.rollups level start name
  summed : ∀ period ∈ released.drop n, fold.isBase period = true →
    ∀ record ∈ period.records, record.figures.complete = false →
    ∀ level ∈ fold.rollupLevels period.start, b ≤ period.start / level * level →
    Stays (released.drop n) fold.rollups level (period.start / level * level) record.key

section Marking

variable {fold after : PeriodFold} {released : List ClosedPeriod} {n : Nat} {gap : LogGap}
  {b edge : Int} {due : Int → Int → String → Prop}

theorem getElem?_doubted (reached : Prop) [Decidable reached] (variants : Variants)
    (name : String) :
    (if reached then variants.map fun _ => doubted else variants)[name]? =
      variants[name]?.map fun record => if reached then doubted record else record := by
  by_cases h : reached
  · simp only [if_pos h, ExtTreeMap.getElem?_map]
  · simp [if_neg h]

theorem rollupRecord_missedBefore (fold : PeriodFold) (through position : Nat)
    (bound level start : Int) (name : String) :
    rollupRecord (fold.missedBefore through position bound).rollups level start name =
      (rollupRecord fold.rollups level start name).map fun record =>
        if start ≤ bound ∧ fold.gapStart bound < start + level then doubted record else record := by
  simp only [rollupRecord, rollupAt, missedBefore, ExtTreeMap.getElem?_map, gapStart]
  cases fold.rollups[level]? with
  | none => rfl
  | some starts =>
    simp only [Option.map_some, Option.bind_some, ExtTreeMap.getElem?_map]
    cases starts[start]? with
    | none => rfl
    | some variants =>
      exact getElem?_doubted _ variants name

theorem openRecord_missedBefore (fold : PeriodFold) (through position : Nat)
    (bound start : Int) (name : String) :
    openRecord (fold.missedBefore through position bound) start name =
      (openRecord fold start name).map fun record =>
        if start ≤ bound ∧ fold.gapStart bound < start + fold.widthAt start then doubted record
        else record := by
  simp only [openRecord, missedBefore, ExtTreeMap.getElem?_map, gapStart]
  cases fold.openPeriods[start]? with
  | none => rfl
  | some variants =>
    exact getElem?_doubted _ variants name

theorem Filed.missedBefore (h : Filed fold.rollups) (through position : Nat) (bound : Int) :
    Filed (fold.missedBefore through position bound).rollups := by
  intro level start name record hrecord
  rw [rollupRecord_missedBefore] at hrecord
  obtain ⟨held, hheld, rfl⟩ := Option.map_eq_some_iff.mp hrecord
  have hkey := h level start name held hheld
  split
  · exact hkey
  · exact hkey

variable {level start : Int} {name : String}

theorem HeldIncomplete.missedBefore (h : HeldIncomplete fold.rollups level start name)
    (through position : Nat) (bound : Int) :
    HeldIncomplete (fold.missedBefore through position bound).rollups level start name := by
  obtain ⟨record, hrecord, hmark⟩ := h
  refine ⟨_, by rw [rollupRecord_missedBefore, hrecord]; rfl, ?_⟩
  split
  · rfl
  · exact hmark

theorem Stays.mono {closed more : List ClosedPeriod}
    {rollups others : BTreeMap Int (BTreeMap Int Variants)}
    (h : Stays closed rollups level start name) (hclosed : closed ⊆ more)
    (hheld : HeldIncomplete rollups level start name → Stays more others level start name) :
    Stays more others level start name := by
  rcases h with hheld' | ⟨period, hperiod, hrest⟩
  · exact hheld hheld'
  · exact .inr ⟨period, hclosed hperiod, hrest⟩

theorem Filed.rollingAll {rollups : BTreeMap Int (BTreeMap Int Variants)} (h : Filed rollups)
    (fold : PeriodFold) (b : Int) (starts : List Int) :
    Filed (starts.foldl (fold.rolling b) rollups) :=
  List.foldlRecOn (motive := Filed) _ _ h fun _ hfiled p _ => hfiled.rolling b p

theorem HeldIncomplete.closeAt (hfiled : Filed fold.rollups)

    (h : HeldIncomplete ((fold.closing edge).foldl (fold.rolling b) fold.rollups) level start name) :
    Stays (fold.closedAt b edge) (fold.closeAt b edge).rollups level start name :=
  (h.closing (hfiled.rollingAll fold b _) edge fold.through).mono
    (subset_append_right _ _) .inl

theorem keeps_filed : Keeps fun _ fold => Filed fold.rollups where
  frame h _ _ hrollups _ _ _ := by
    rw [hrollups]
    exact h
  missed _ h through position bound := h.missedBefore through position bound
  place _ h _ _ := h
  close _ h _ := (h.rollingAll _ _ _).dropEnded _
  widen htraced h _ hpos hdvd := by
    obtain ⟨⟨widths, heq⟩, -⟩ := htraced.sound.frame_changeWidth hpos hdvd
    rw [heq]
    exact h

namespace Marks

section

variable (h : Marks n gap b due released fold)

include h

/-- What marks read of a fold: its records, its widths where they lie, and its front. -/
theorem congr (hopen : after.openPeriods = fold.openPeriods)
    (hrollups : after.rollups = fold.rollups) (hclosed : after.closedThrough = fold.closedThrough)
    (hmissed : after.missedSpans = fold.missedSpans) (hbegan : after.began = some b)
    (hwidth : ∀ start, fold.Opens start → after.widthAt start = fold.widthAt start)
    (hbase : ∀ period ∈ released, after.widthAt period.start = fold.widthAt period.start) :
    Marks n gap b due released after := by
  have hin : ∀ period ∈ released.drop n, after.widthAt period.start = fold.widthAt period.start :=
    fun period hperiod => hbase period (mem_of_mem_drop hperiod)
  refine ⟨by rw [hrollups]; exact h.filed, h.long, hbegan, ?_, ?_, ?_, ?_, ?_⟩
  · rw [hmissed, hclosed]
    exact h.remembered
  · intro start name record hrecord hreaches
    rw [openRecord, hopen] at hrecord
    obtain ⟨variants, hvariants, -⟩ := Option.bind_eq_some_iff.mp hrecord
    rw [hwidth start (by rw [Opens, hvariants]; rfl)] at hreaches
    exact h.opened start name record hrecord hreaches
  · intro period hperiod hyes
    rw [isBase, hin period hperiod] at hyes
    exact h.closed period hperiod hyes
  · rw [hrollups]
    exact h.rolled
  · intro period hperiod hyes
    rw [isBase, hin period hperiod] at hyes
    rw [rollupLevels, hin period hperiod, hrollups]
    exact h.summed period hperiod hyes

theorem missed (through position : Nat) (bound : Int) :
    Marks n gap b due released (fold.missedBefore through position bound) := by
  have hstays : ∀ level start name, Stays (released.drop n) fold.rollups level start name →
      Stays (released.drop n) (fold.missedBefore through position bound).rollups level start name :=
    fun level start name hstays => hstays.mono (List.Subset.refl _) fun hheld =>
      .inl (hheld.missedBefore through position bound)
  refine ⟨h.filed.missedBefore _ _ _, h.long, h.began, ?_, ?_, h.closed, ?_, ?_⟩
  · exact h.remembered.imp_left fun hmem => mem_append_left _ hmem
  · intro start name record hrecord hreaches
    rw [openRecord_missedBefore] at hrecord
    obtain ⟨held, hheld, rfl⟩ := Option.map_eq_some_iff.mp hrecord
    have hmark := h.opened start name held hheld hreaches
    split
    · rfl
    · exact hmark
  · exact fun level start name hdue => hstays _ _ _ (h.rolled level start name hdue)
  · exact fun period hperiod hyes record hrecord hmark level hlevel hb =>
      hstays _ _ _ (h.summed period hperiod hyes record hrecord hmark level hlevel hb)

/-- A run is counted past the gap, or its period is known to reach it. -/
theorem reachesMissed {start stop : Int} (hfront : fold.AtFront start)
    (hreaches : gap.Reaches start stop) : fold.reachesMissed start stop = true := by
  rcases h.remembered with hmem | ⟨c, hc, hlt⟩
  · unfold PeriodFold.reachesMissed
    rw [any_eq_true]
    exact ⟨_, hmem, by simpa using ⟨hreaches.2, hreaches.1⟩⟩
  · have hle := hfront.1 c hc
    have hstart := hreaches.1
    omega

theorem place (hsound : fold.Sound) (p : Placement) :
    Marks n gap b due released (fold.place p.project p.variantId p.endSeconds p.run) := by
  have hbegan : fold.began.isSome := by rw [h.began]; rfl
  obtain ⟨-, hfront⟩ := hsound.openFrom hbegan p.endSeconds
  refine ⟨h.filed, h.long, h.began, h.remembered, ?_, h.closed, h.rolled, h.summed⟩
  intro start name record hrecord hreaches
  simp only [openRecord, PeriodFold.place, getElem?_entry] at hrecord
  split at hrecord
  · -- the period the run is counted in
    rename_i hstart
    subst hstart
    rw [Option.bind_some, getElem?_entry] at hrecord
    have hmissed := h.reachesMissed hfront hreaches
    split at hrecord
    · cases hrecord
      refine complete_counted ?_ _ _ _ _ _
      rw [if_pos]
      · rfl
      · have hwide : fold.reachesMissed (fold.openFrom (fold.floorAt p.endSeconds))
            (fold.openFrom (fold.floorAt p.endSeconds) +
              fold.widthAt (fold.openFrom (fold.floorAt p.endSeconds))) = true := hmissed
        rw [hwide, Bool.or_true, Bool.true_or]
    · refine h.opened _ name record ?_ hreaches
      unfold openRecord
      cases hopen : fold.openPeriods[fold.openFrom (fold.floorAt p.endSeconds)]? with
      | none => simp [hopen] at hrecord
      | some variants => simpa [hopen] using hrecord
  · exact h.opened start name record hrecord hreaches

theorem close (hsound : fold.Sound) (hedge : fold.Edge b edge) :
    Marks n gap b due (released ++ fold.closedAt b edge) (fold.closeAt b edge) := by
  have hdrop : (released ++ fold.closedAt b edge).drop n =
      released.drop n ++ fold.closedAt b edge := drop_append_of_le_length h.long
  have hnew : ∀ level start name,
      HeldIncomplete ((fold.closing edge).foldl (fold.rolling b) fold.rollups) level start name →
      Stays (released.drop n ++ fold.closedAt b edge) (fold.closeAt b edge).rollups level start
        name := fun level start name hheld =>
    (HeldIncomplete.closeAt h.filed hheld).mono (subset_append_right _ _) .inl
  have hstays : ∀ level start name, Stays (released.drop n) fold.rollups level start name →
      Stays (released.drop n ++ fold.closedAt b edge) (fold.closeAt b edge).rollups level start
        name := fun level start name hstays =>
    hstays.mono (subset_append_left _ _) fun hheld => hnew level start name <|
      List.foldlRecOn (motive := fun rollups => HeldIncomplete rollups level start name) _ _ hheld
        fun _ hheld p _ => hheld.rolling b p
  refine ⟨(h.filed.rollingAll fold b _).dropEnded edge, ?_, h.began, ?_, ?_, ?_, ?_, ?_⟩
  · rw [length_append]
    exact Nat.le_add_right_of_le h.long
  · rcases h.remembered with hmem | ⟨c, hc, hlt⟩
    · by_cases hold : edge ≤ gap.until' + day
      · exact .inl (mem_filter.mpr ⟨hmem, by simpa using hold⟩)
      · have hday : 0 < day := by decide
        exact .inr ⟨edge, rfl, by omega⟩
    · exact .inr ⟨edge, rfl, by have := hedge.past c hc; omega⟩
  · intro start name record hrecord
    simp only [openRecord, PeriodFold.closeAt, getElem?_dropAll] at hrecord
    split at hrecord
    · cases hrecord
    · exact h.opened start name record hrecord
  · intro period hperiod hyes hreaches record hrecord
    rw [hdrop] at hperiod
    rcases mem_append.mp hperiod with hold | hnew
    · exact h.closed period hold hyes hreaches record hrecord
    · rcases mem_append.mp hnew with hbase | hroll
      · obtain ⟨start, -, hclosed⟩ := mem_filterMap.mp hbase
        obtain ⟨variants, hvariants, rfl⟩ := Option.map_eq_some_iff.mp hclosed
        obtain ⟨name, hname⟩ := BTreeMap.mem_values.mp hrecord
        exact h.opened start name record (by rw [openRecord, hvariants]; exact hname) hreaches
      · have hnot := (hsound.isBase_rollups hedge hroll).1
        have hyes' : fold.isBase period = true := hyes
        rw [hnot] at hyes'
        cases hyes'
  · intro level start name hdue
    rw [hdrop]
    exact hstays level start name (h.rolled level start name hdue)
  · intro period hperiod hyes record hrecord hmark level hlevel hb
    rw [hdrop] at hperiod ⊢
    rcases mem_append.mp hperiod with hold | hclosed
    · exact hstays _ _ _ (h.summed period hold hyes record hrecord hmark level hlevel hb)
    · rcases mem_append.mp hclosed with hbase | hroll
      · obtain ⟨start, hstart, hclosed⟩ := mem_filterMap.mp hbase
        obtain ⟨-, hsame, -⟩ := mem_closedBase hclosed
        subst hsame
        refine hnew _ _ _ (foldl_of_mem (HeldIncomplete · level _ record.key) hstart
          (fun rollups => ?_) (fun _ p hheld => hheld.rolling b p) fold.rollups)
        exact heldIncomplete_rolling hclosed hrecord hmark hlevel hb rollups
      · have hnot := (hsound.isBase_rollups hedge hroll).1
        have hyes' : fold.isBase period = true := hyes
        rw [hnot] at hyes'
        cases hyes'

theorem widen (htraced : Traced released fold) {width : Int} (hpos : 0 < width)
    (hdvd : width ∣ hour) : Marks n gap b due released (fold.changeWidth width) := by
  obtain ⟨⟨widths, heq⟩, hwidth⟩ := htraced.sound.frame_changeWidth hpos hdvd
  refine h.congr (by rw [heq]) (by rw [heq]) (by rw [heq]) (by rw [heq])
    (by rw [heq]; exact h.began) ?_ ?_
  · intro start hstart
    rcases changeWidth_cases htraced.sound hpos hdvd with
      ⟨-, hsame⟩ | ⟨hnone, -⟩ | ⟨switch, -, -, hchange⟩
    · rw [hsame]
    · cases hnone.symm.trans h.began
    · have hend := hchange.opened start hstart
      have hwide := htraced.sound.cuts.pos start
      exact (hchange.earlier start (by omega)).1
  · intro period hperiod
    obtain ⟨hlevel, ⟨b', c, -, hc, -, hstop⟩, -⟩ := htraced.closed period hperiod
    exact hwidth period.start c hc (by omega)

end

end Marks

/-- **Mark rule**: what a gap leaves, everything an act does keeps. -/
theorem keeps_marks : Keeps (Marks n gap b due) where
  frame h hwidths hopen hrollups hclosed hmissed hbegan := by
    have hwidth : ∀ t, _ := fun t => congrArg (Widths.widthAt · t) hwidths
    exact h.congr hopen hrollups hclosed hmissed (hbegan b h.began) (fun start _ => hwidth start)
      fun period _ => hwidth period.start
  missed _ h through position bound := h.missed through position bound
  place htraced h _ p := h.place htraced.sound p
  close htraced h hedge := by
    obtain rfl := Option.some.inj (h.began.symm.trans hedge.began)
    exact h.close htraced.sound hedge
  widen htraced h _ hpos hdvd := h.widen htraced hpos hdvd

/-- An hour's or a day's record that is held when a gap reaching it is noticed. -/
def DueTo (gap : LogGap) (held : PeriodFold) (level start : Int) (name : String) : Prop :=
  gap.Reaches start (start + level) ∧ ∃ record, rollupRecord held.rollups level start name =
    some record

theorem marks_missedBefore (hfiled : Filed fold.rollups) (hbegan : fold.began = some b)
    (hgap : gap.start = fold.gapStart gap.until') (released : List ClosedPeriod)
    (through position : Nat) : Marks released.length gap b (DueTo gap fold) released
      (fold.missedBefore through position gap.until') := by
  refine ⟨hfiled.missedBefore _ _ _, Nat.le_refl _, hbegan, ?_, ?_, ?_, ?_, ?_⟩
  · refine .inl (mem_append_right _ ?_)
    rw [hgap]
    exact mem_cons_self
  · intro start name record hrecord hreaches
    rw [openRecord_missedBefore] at hrecord
    obtain ⟨held, -, rfl⟩ := Option.map_eq_some_iff.mp hrecord
    rw [if_pos ⟨hreaches.1, hgap ▸ hreaches.2⟩]
    rfl
  · simp
  · rintro level start name ⟨hreaches, record, hrecord⟩
    refine .inl ⟨doubted record, ?_, rfl⟩
    rw [rollupRecord_missedBefore, hrecord, Option.map_some, if_pos ⟨hreaches.1, hgap ▸ hreaches.2⟩]
  · simp

end Marking

/-! ## The gaps not yet written down -/

section Missed

variable {fold after : PeriodFold} {gap : LogGap}

theorem missed_close (fold : PeriodFold) : fold.close.missed = fold.missed := by
  rcases fold.close_cases with hsame | ⟨_, _, _, _, _, _, _, hclose⟩
  · rw [hsame]
  · rw [hclose]
    rfl

variable (measures : Measures)

theorem missed_foldEvent (fold : PeriodFold) (event : RecordedEvent) :
    (foldEvent measures fold event).missed = fold.missed := by
  obtain ⟨placements, runs, runCounts, forgotten, hfold, -⟩ := foldEvent_eq measures fold event
  rw [hfold]
  exact List.foldlRecOn (motive := fun after : PeriodFold => after.missed = fold.missed) placements
    _ rfl fun _ hafter _ _ => hafter

theorem missed_readOn (fold : PeriodFold) (event : RecordedEvent) :
    (readOn measures fold event).missed = fold.missed := by
  unfold readOn
  dsimp only
  rw [missed_close]
  split
  · rfl
  · exact missed_foldEvent measures _ event

theorem missed_noticed (fold : PeriodFold) (position : Nat) (bound : Int) :
    fold.missed ⊆ (fold.noticed position bound).missed := by
  unfold noticed
  split
  · split
    · exact subset_append_left _ _
    · exact List.Subset.refl _
  · exact List.Subset.refl _

theorem missed_apply (fold : PeriodFold) (event : RecordedEvent) :
    fold.missed ⊆ (fold.apply measures event).missed := by
  rw [apply_eq]
  split
  · exact List.Subset.refl _
  · rw [missed_readOn]
    exact missed_noticed fold _ _

theorem missed_readPage (fold : PeriodFold) (page : JournalPage) (until' : Nat) :
    fold.missed ⊆ (readPage measures fold page until').missed := by
  have hevents : fold.missed ⊆
      (page.events.foldl (refillOne measures (min page.last until')) fold).missed := by
    refine List.foldlRecOn (motive := fun after : PeriodFold => fold.missed ⊆ after.missed)
      page.events _ (List.Subset.refl _) fun after hafter event _ => ?_
    unfold refillOne
    dsimp only
    split
    · exact hafter
    · exact List.Subset.trans hafter (missed_apply measures
        (after.readThrough (some (event.metadata.globalPosition.toNat - 1))) event)
  unfold readPage
  dsimp only
  split
  · rw [missed_close]
    exact hevents
  · exact hevents

theorem missed_beforePage (fold : PeriodFold) (through : Nat) (page : JournalPage) :
    fold.missed ⊆ (fold.beforePage through page).missed := by
  unfold beforePage
  split
  · exact subset_append_left _ _
  · exact List.Subset.refl _

/-- A gap that is not written down is kept by the fold until it is. -/
theorem missed_step {measures : Measures} {act : Act} {out : List ClosedPeriod}
    (hstep : (folding measures).step fold act = some (out, after)) (h : gap ∈ fold.missed) :
    gap ∈ after.missed ∨ act = .wroteGap gap := by
  cases act with
  | read event =>
    obtain ⟨rfl, rfl⟩ := Prod.mk.inj (Option.some.inj hstep)
    exact .inl (missed_apply measures fold event h)
  | refilled page until' =>
    obtain ⟨refilled, hrefill, heq⟩ := Option.map_eq_some_iff.mp hstep
    obtain ⟨rfl, rfl⟩ := Prod.mk.inj heq
    rw [refill_eq, Option.bind_eq_some_iff] at hrefill
    obtain ⟨through, -, hpage⟩ := hrefill
    split at hpage
    · cases hpage
    · cases Option.some.inj hpage
      exact .inl (missed_readPage measures _ page until' (missed_beforePage fold through page h))
  | widened width =>
    obtain ⟨rfl, rfl⟩ := Prod.mk.inj (Option.some.inj hstep)
    left
    unfold changeWidth
    split
    · exact h
    · split
      · exact h
      · exact h
  | numbersPositions contiguous =>
    obtain ⟨rfl, rfl⟩ := Prod.mk.inj (Option.some.inj hstep)
    exact .inl h
  | wroteGap written =>
    obtain ⟨rfl, rfl⟩ := Prod.mk.inj (Option.some.inj hstep)
    by_cases hsame : gap = written
    · exact .inr (by rw [hsame])
    · exact .inl (mem_filter.mpr ⟨h, by simpa using hsame⟩)
  | wrote =>
    dsimp only [folding] at hstep
    split at hstep
    · cases hstep
    · obtain ⟨rfl, rfl⟩ := Prod.mk.inj (Option.some.inj hstep)
      exact .inl h

theorem missed_of_missing {act : Act} (hgap : fold.missing act = some gap) :
    ∃ out after, (folding measures).step fold act = some (out, after) ∧ gap ∈ after.missed := by
  obtain ⟨through, position, -, heq, hact⟩ := missing_cases measures hgap
  have hnoticed : gap ∈ (fold.missedBefore through position gap.until').missed := by
    refine mem_append_right _ ?_
    rw [mem_singleton]
    exact heq
  rcases hact with ⟨event, rfl, happly⟩ | ⟨page, until', rfl, hrefill⟩
  · refine ⟨_, _, rfl, ?_⟩
    rw [happly, missed_readOn]
    exact hnoticed
  · exact ⟨_, _, congrArg (Option.map fun after => (newlyClosed fold after, after)) hrefill,
      missed_readPage measures _ page until' hnoticed⟩

theorem missed_last {measures : Measures} (acts : List Act) (h : gap ∈ fold.missed) :
    gap ∈ ((folding measures).last fold acts).missed ∨ .wroteGap gap ∈ acts := by
  induction acts generalizing fold with
  | nil => exact .inl h
  | cons act rest ih =>
    cases hstep : (folding measures).step fold act with
    | none =>
      rw [Machine.last_cons_none hstep]
      exact (ih h).imp_right (mem_cons_of_mem _)
    | some stepped =>
      rw [Machine.last_cons_some hstep]
      rcases missed_step hstep h with hkept | rfl
      · exact (ih hkept).imp_right (mem_cons_of_mem _)
      · exact .inr mem_cons_self

theorem missed_window {b : Int} (hb : fold.began = some b) (project : Option Store.ProjectScope)
    (variantIds : List String) (since : Int) :
    (fold.window project variantIds since).since = since ∧
      (fold.window project variantIds since).missed =
        fold.missed.filter fun gap => since ≤ gap.until' := by
  have hwritten : ∃ w, fold.baseWritten.or (some b) = some w := by
    cases fold.baseWritten with
    | none => exact ⟨b, rfl⟩
    | some w => exact ⟨w, rfl⟩
  obtain ⟨w, hw⟩ := hwritten
  simp [window, hb, hw]

end Missed

/-! ## What is said of a gap -/

/-- What says that it is incomplete once a fold `held` has noticed a gap: `now` and in what was
closed since. -/
structure GapMarked (gap : LogGap) (held now : PeriodFold) (since : List ClosedPeriod) : Prop where
  /-- A gap may have lain anywhere from the log's clock before it to what was read after it. -/
  interval : gap.start = held.gapStart gap.until'
  opened : ∀ start name record, openRecord now start name = some record →
    gap.Reaches start (start + now.widthAt start) → record.figures.complete = false
  closed : ∀ period ∈ since, now.isBase period = true →
    gap.Reaches period.start (period.start + period.level) →
    ∀ record ∈ period.records, record.figures.complete = false
  rolled : ∀ level start name record, rollupRecord held.rollups level start name = some record →
    gap.Reaches start (start + level) → Stays since now.rollups level start name
  summed : ∀ period ∈ since, now.isBase period = true →
    ∀ record ∈ period.records, record.figures.complete = false →
    ∀ level ∈ now.rollupLevels period.start, ∀ b, now.began = some b →
      b ≤ period.start / level * level →
      Stays since now.rollups level (period.start / level * level) record.key

/-- A window over a fold says what it is short of: it names the gap it begins at or before the end
of, and counts the incomplete records that begin where it does or later. -/
structure GapNamed (gap : LogGap) (kept : List LogGap) (stored : List ObservedPeriod)
    (window : Window) : Prop where
  named : window.since ≤ gap.until' → ∀ variantId,
    gap ∈ (window.observe kept stored variantId).missed
  counted : ∀ record, record ∈ stored ∨ record ∈ window.held →
    record.figures.complete = false →
    window.edge < record.start ∨ record.start = window.edge ∧ window.since ≤ window.edge →
    0 < (window.observe kept stored record.variantId).incompletePeriods

/-- **A gap is never silent.**  Once a fold has noticed that positions are missing, every open
period that reaches the interval they may have lain in says that it is incomplete, however late it
is opened, and is closed so; so is every hour and day that was held and reaches it, and that a
closed period's incomplete record is added to; and every window that begins at or before the gap's
end names it. -/
theorem gaps_are_marked (measures : Measures) {width : Int} (hpos : 0 < width)
    (hdvd : width ∣ hour) (before : List Act) (act : Act) (after : List Act)
    (hacts : ∀ a ∈ before ++ act :: after, a.Admitted) {gap : LogGap}
    (hgap : ((folding measures).last (new width) before).missing act = some gap) :
    let held := (folding measures).last (new width) before
    let now := (folding measures).last held (act :: after)
    GapMarked gap held now ((folding measures).emitted held (act :: after)) ∧
      ∀ kept : List LogGap, (∀ written, .wroteGap written ∈ after → written ∈ kept) →
        ∀ stored project variantIds since,
          GapNamed gap kept stored (now.window project variantIds since) := by
  intro held now
  have hfirst : ∀ a ∈ before, a.Admitted := fun a ha => hacts a (List.mem_append_left _ ha)
  have hrest : ∀ a ∈ after, a.Admitted := fun a ha =>
    hacts a (List.mem_append_right _ (List.mem_cons_of_mem _ ha))
  have hact : act.Admitted := hacts act (List.mem_append_right _ List.mem_cons_self)
  have hnew : Filed (new width).rollups := by
    intro level start name record hrecord
    simp [rollupRecord, rollupAt, new] at hrecord
  obtain ⟨htraced, hfiled⟩ := keeps_filed.run (traced_new hpos hdvd) hnew measures before hfirst
  rw [List.nil_append] at htraced
  have hheld : Traced ((folding measures).emitted (new width) before) held := htraced
  obtain ⟨through, _, hthrough, heq, _⟩ := missing_cases measures hgap
  have hstart : gap.start = held.gapStart gap.until' := congrArg LogGap.start heq
  obtain ⟨b, hb⟩ := Option.isSome_iff_exists.mp (hheld.sound.read (by rw [hthrough]; rfl))
  obtain ⟨out, noticed, hstep, hmissed⟩ := missed_of_missing measures hgap
  have hnow : now = (folding measures).last noticed after := Machine.last_cons_some hstep after
  -- the act notices the gap, and every act from there on keeps its marks
  have hmarks := keeps_marks.noticed_step hheld hgap
    (marks_missedBefore hfiled hb hstart _) hstep
  have hnoticed := (keeps_filed.step hheld hfiled hact hstep).1
  obtain ⟨hreached, hfinal⟩ := keeps_marks.run hnoticed hmarks measures after hrest
  rw [← hnow] at hreached hfinal
  have hdrop : (((folding measures).emitted (new width) before ++ out) ++
      (folding measures).emitted noticed after).drop
        ((folding measures).emitted (new width) before).length =
          (folding measures).emitted held (act :: after) := by
    rw [List.append_assoc, List.drop_left, Machine.emitted, Machine.emitted,
      Machine.run_cons_some hstep, List.flatMap_cons]
  refine ⟨⟨hstart, hfinal.opened, ?_, ?_, ?_⟩, ?_⟩
  · rw [← hdrop]
    exact hfinal.closed
  · intro level start name record hrecord hreaches
    rw [← hdrop]
    exact hfinal.rolled level start name ⟨hreaches, record, hrecord⟩
  · intro period hperiod hyes record hrecord hmark level hlevel b' hb'
    obtain rfl := Option.some.inj (hfinal.began.symm.trans hb')
    rw [← hdrop] at hperiod ⊢
    exact hfinal.summed period hperiod hyes record hrecord hmark level hlevel
  · intro kept hkept stored project variantIds since
    obtain ⟨hsince, hown⟩ := missed_window hfinal.began project variantIds since
    refine ⟨fun hle variantId => Window.mem_missed_observe ?_ stored variantId,
      fun record hrecord hmark hwhole =>
        Window.incompletePeriods_observe hrecord hmark hwhole kept⟩
    rw [hsince] at hle
    rcases missed_last after hmissed with hmem | hwritten
    · rw [← hnow] at hmem
      exact .inr (by rw [hown]; exact List.mem_filter.mpr ⟨hmem, by simpa using hle⟩)
    · exact .inl ⟨hkept gap hwritten, by rw [hsince]; exact hle⟩

/-- Two runs begin, and a position between them is missing. -/
def twoBegin : List Act := [.numbersPositions true, .read (observed .runStarted "run-1" 1 100)]

theorem gaps_are_marked_twoBegin :
    let held := (folding plainMeasures).last (new 900) twoBegin
    let acts := [Act.read (observed .runStarted "run-2" 3 200),
      .read (observed .runCompleted "run-1" 4 300)]
    GapMarked ⟨2, 2, 100, 200⟩ held ((folding plainMeasures).last held acts)
      ((folding plainMeasures).emitted held acts) := by
  have hadmitted : ∀ act ∈ twoBegin ++ .read (observed .runStarted "run-2" 3 200) ::
      [.read (observed .runCompleted "run-1" 4 300)], Act.Admitted act := by
    intro act hact
    simp only [twoBegin, List.mem_cons, List.mem_append, List.not_mem_nil, or_false] at hact
    rcases hact with (rfl | rfl) | rfl | rfl <;> trivial
  exact (gaps_are_marked plainMeasures (by decide) (by decide) twoBegin
    (.read (observed .runStarted "run-2" 3 200)) [.read (observed .runCompleted "run-1" 4 300)]
    hadmitted (by decide +kernel)).1

/-- What a closed period says of its records: its level, its start, and which vouch for their
runs. -/
def vouched (period : ClosedPeriod) : Int × Int × List Bool :=
  (period.level, period.start, period.records.map fun record => record.figures.complete)

/-- The run ends after the quarter of an hour the gap lies in, in its hour. -/
def endsLater : List Act := twoBegin ++ [.read (observed .runStarted "run-2" 3 200),
  .read (observed .runCompleted "run-1" 4 1000), .read (observed .runStarted "run-3" 5 4000)]

/-- A period closes, and after it comes an event of the period, past a missing position. -/
def closesFirst : List Act := twoBegin ++ [.read (observed .runCompleted "run-1" 2 150),
  .read (observed .runStarted "run-2" 3 1100), .read (observed .runStarted "run-3" 5 200)]

/-- The run ends in the period the gap lies in, past it. -/
def endsPast : List Act := twoBegin ++ [.read (observed .runStarted "run-2" 3 200),
  .read (observed .runCompleted "run-1" 4 300)]

/-- The last event before a missing position is of an earlier period than the log's clock. -/
def endsBehind : List Act := [.numbersPositions true, .read (observed .runStarted "run-1" 1 900),
  .read (observed .runStarted "run-2" 2 1850), .read (observed .runCompleted "run-1" 3 1000),
  .read (observed .runStarted "run-3" 5 1880)]

/-- Not every record a gap reaches is marked: an hour that is first held after the gap is noticed,
a period closed before, the seconds of a period past the gap's end, and a period that only the
last event before the gap lies in. -/
theorem gaps_leave_unmarked :
    ((folding plainMeasures).last (new 900) endsLater).missed = [⟨2, 2, 100, 200⟩] ∧
    ((folding plainMeasures).emitted (new 900) endsLater).map vouched =
      [(900, 900, [true]), (hour, 0, [true])] ∧
    ((folding plainMeasures).last (new 900) closesFirst).missed = [⟨4, 4, 200, 200⟩] ∧
    ((folding plainMeasures).emitted (new 900) closesFirst).map vouched = [(900, 0, [true])] ∧
    ((folding plainMeasures).last (new 900) endsPast).missed = [⟨2, 2, 100, 200⟩] ∧
    (openRecord ((folding plainMeasures).last (new 900) endsPast) 0 "|v1").map
      (fun record => record.figures.complete) = some false ∧
    (let counted := (((folding plainMeasures).last (new 900) endsPast).window none ["v1"] 250).observe
        [] [] "v1";
      (counted.parts.map fun part => part.figures.runs) = [1] ∧ counted.incompletePeriods = 0 ∧
        counted.missed = []) ∧
    ((folding plainMeasures).last (new 900) endsBehind).missed = [⟨4, 4, 1850, 1880⟩] ∧
    (openRecord ((folding plainMeasures).last (new 900) endsBehind) 900 "|v1").map
      (fun record => record.figures.complete) = some true := by
  decide +kernel

end PeriodFold

end Aiwatcher.Periods
