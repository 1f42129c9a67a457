import Aiwatcher.Asked.Kept
import Aiwatcher.Asked.Since

/-!
# Aiwatcher.Asked.Restart

An index loaded where it was flushed reads the rest of the log as the index that was not
restarted does, where it remembers no run's caller and retention leaves its reach alone.
-/

namespace Aiwatcher.Asked

open Library Periods List Option Table Std

/-! ## The reach saved furthest along -/

theorem getLast?_of_greatest {rows : List (Nat × Reach)} {through : Nat} {reach : Reach}
    (hsorted : rows.Pairwise fun row later => row.1 < later.1) (hmem : (through, reach) ∈ rows)
    (hgreatest : ∀ row ∈ rows, row.1 ≤ through) : rows.getLast? = some (through, reach) := by
  induction rows with
  | nil => cases hmem
  | cons row rows ih =>
    rw [pairwise_cons] at hsorted
    rcases mem_cons.mp hmem with rfl | hmem
    · cases rows with
      | nil => rfl
      | cons next rows =>
        have hlt := hsorted.1 next mem_cons_self
        have hle := hgreatest next (by simp)
        omega
    · rw [getLast?_cons, ih hsorted.2 hmem fun row hrow =>
        hgreatest row (mem_cons_of_mem _ hrow)]
      rfl

namespace Disk

theorem furthest_of_greatest {disk : Disk} {through : Nat} {reach : Reach}
    (hreach : disk.reaches[through]? = some reach)
    (hgreatest : ∀ other ∈ disk.reaches, other ≤ through) : disk.furthest = some reach := by
  have hsorted : disk.reaches.toList.Pairwise fun row later => row.1 < later.1 :=
    ExtTreeMap.ordered_keys_toList.imp fun hlt => Std.compare_eq_lt.mp hlt
  have hlast := getLast?_of_greatest hsorted
    (ExtTreeMap.mem_toList_iff_getElem?_eq_some.mpr hreach) (by
      intro row hrow
      apply hgreatest
      rw [ExtTreeMap.mem_iff_isSome_getElem?, ExtTreeMap.mem_toList_iff_getElem?_eq_some.mp hrow]
      rfl)
  rw [furthest, hlast]
  rfl

theorem notMem_old {reaches : BTreeMap Nat Reach} {through : Nat}
    (hmem : through ∈ reaches) (hgreatest : ∀ other ∈ reaches, other ≤ through) :
    through ∉ ((reaches.keys.filter (· ≤ through)).reverse).drop reachesKept := by
  have hall : reaches.keys.filter (· ≤ through) = reaches.keys := by
    simp only [filter_eq_self, decide_eq_true_eq, ExtTreeMap.mem_keys]
    exact hgreatest
  rw [hall]
  have hsorted : reaches.keys.reverse.Pairwise fun key later => later < key := by
    rw [pairwise_reverse]
    exact ExtTreeMap.ordered_keys.imp fun hlt => Std.compare_eq_lt.mp hlt
  have hkey : through ∈ reaches.keys.reverse := by
    simpa using ExtTreeMap.mem_keys.mpr hmem
  have hle : ∀ key ∈ reaches.keys.reverse, key ≤ through := by
    simpa [ExtTreeMap.mem_keys] using hgreatest
  cases hkeys : reaches.keys.reverse with
  | nil => simp
  | cons first rest =>
    rw [hkeys, pairwise_cons] at hsorted
    rw [hkeys] at hkey hle
    intro hdrop
    have hrest : through ∈ rest := mem_of_mem_drop (by simpa [reachesKept] using hdrop)
    have hlt := hsorted.1 through hrest
    have := hle first mem_cons_self
    omega

theorem furthest_save {disk : Disk} {through : Nat} (reach : Reach)
    (hnew : ∀ other ∈ disk.reaches, other < through) :
    (disk.save through reach).furthest = some reach := by
  have habsent : disk.reaches.contains through = false := by
    rw [← Bool.not_eq_true, ExtTreeMap.contains_iff_mem]
    intro hmem
    exact Nat.lt_irrefl _ (hnew through hmem)
  have hgreatest : ∀ other ∈ disk.reaches.insert through reach, other ≤ through := by
    intro other hother
    rw [ExtTreeMap.mem_insert] at hother
    rcases hother with heq | hother
    · exact (Std.LawfulEqOrd.eq_of_compare heq).ge
    · exact (hnew other hother).le
  have hold := notMem_old (by simp) hgreatest
  apply furthest_of_greatest
  · simp only [save, habsent, Bool.false_eq_true, if_false]
    rw [getElem?_dropAll, if_neg hold, Table.getElem?_insert, if_pos rfl]
  · intro other hother
    apply hgreatest
    simp only [save, habsent, Bool.false_eq_true, if_false] at hother
    rw [ExtTreeMap.mem_iff_isSome_getElem?, getElem?_dropAll] at hother
    split at hother
    · cases hother
    · rwa [ExtTreeMap.mem_iff_isSome_getElem?]

end Disk

/-! ## The index between flushes -/

/-- What every act leaves as it is of an index. -/
structure Index.Standing (contiguous : Bool) (index : Index) : Prop where
  measured : index.measured.Lawful
  /-- Counts are in the reach only where it is saved. -/
  unmeasured : index.reach.measured = []
  contiguous : index.contiguous = contiguous
  remembered : ∀ run ∈ index.callers, run ∈ index.callerOrder

namespace Index.Standing

variable {contiguous : Bool} {index : Index}

section

variable (h : index.Standing contiguous)

include h

theorem remember (event : RecordedEvent) : (index.remember event).Standing contiguous := by
  have hinsert : ∀ (index : Index) (run caller : String), index.Standing contiguous →
      Standing contiguous { index with
        callers := index.callers.insert run caller, callerOrder := index.callerOrder ++ [run] } := by
    intro index run caller h
    refine ⟨h.measured, h.unmeasured, h.contiguous, fun held hheld => ?_⟩
    rw [ExtTreeMap.mem_insert, Std.LawfulEqCmp.compare_eq_iff_eq] at hheld
    rcases hheld with rfl | hheld
    · simp
    · exact mem_append_left _ (h.remembered held hheld)
  unfold Index.remember
  split
  · split
    · apply hinsert
      refine ⟨h.measured, h.unmeasured, h.contiguous, fun held hheld => ?_⟩
      cases horder : index.callerOrder with
      | nil =>
        have := h.remembered held (by simpa [horder] using hheld)
        simp [horder] at this
      | cons oldest rest =>
        simp only [horder, head?_cons, elim_some, ExtTreeMap.mem_erase] at hheld
        have hmem := h.remembered held hheld.2
        rw [horder] at hmem
        rcases mem_cons.mp hmem with rfl | hmem
        · simp at hheld
        · simpa using hmem
    · exact hinsert _ _ _ h
  · exact h

theorem forget (event : RecordedEvent) : (index.forget event).Standing contiguous := by
  unfold Index.forget
  split
  · split
    · refine ⟨h.measured, h.unmeasured, h.contiguous, fun held hheld => ?_⟩
      rw [ExtTreeMap.mem_erase] at hheld
      have hne : held ≠ event.metadata.runId := fun heq => hheld.1 (by simp [heq])
      simpa [hne] using h.remembered held hheld.2
    · exact h
  · exact h

theorem apply (event : RecordedEvent) : (index.apply event).Standing contiguous := by
  have hnoted : (index.noted event).Standing contiguous := by
    apply remember
    refine ⟨h.measured.apply event, ?_, h.contiguous, h.remembered⟩
    simp only [reached]
    split <;> exact h.unmeasured
  unfold Index.apply
  split
  · exact h
  · apply forget
    exact ⟨hnoted.measured, hnoted.unmeasured, hnoted.contiguous, hnoted.remembered⟩

theorem prunedTo (cutoffMs : Int) : (index.prunedTo cutoffMs).Standing contiguous := by
  unfold Index.prunedTo
  split
  · exact ⟨h.measured, h.unmeasured, h.contiguous, h.remembered⟩
  · exact h

end

end Index.Standing

/-- Every saved reach is behind what is applied, or is where the index was flushed last. -/
structure Saved (contiguous : Bool) (board : Board) : Prop where
  standing : board.index.Standing contiguous
  saved : ∀ through ∈ board.disk.reaches, ∃ applied, board.index.appliedThrough = some applied ∧
    (through < applied ∨ through = applied ∧ board.index.pending = [] ∧
      board.index.reach.through = some applied)
  flushing : ∀ flush, board.flushing = some flush → ∃ through applied,
    flush.reach.through = some through ∧ board.index.appliedThrough = some applied ∧
      (∀ other ∈ board.disk.reaches, other < through) ∧
      (through < applied ∨ through = applied ∧ board.index.pending = [])

theorem stores_reaches (disk : Disk) (flush : Index.Flush) :
    (Board.stores disk flush).reaches = disk.reaches := by
  unfold Board.stores
  cases flush.page with
  | none => rfl
  | some page =>
    simp only [elim_some, Disk.create]
    split <;> rfl

variable {index : Index}

theorem Saved.new {contiguous : Bool} {board : Board} (h : Saved contiguous board) {due : Bool}
    {flush : Index.Flush} (htake : board.index.take due = some (flush, index)) {through : Nat}
    (hthrough : board.index.appliedThrough = some through) :
    flush.reach = board.index.reachThrough through ∧
      ∀ other ∈ board.disk.reaches, other < through := by
  unfold Index.take at htake
  rw [hthrough, bind_some] at htake
  have hsaved : ∀ other ∈ board.disk.reaches, other < through ∨ other = through ∧
      board.index.pending = [] ∧ board.index.reach.through = some through := by
    intro other hother
    obtain ⟨applied, happlied, hle⟩ := h.saved other hother
    cases some.inj (hthrough.symm.trans happlied)
    exact hle
  split at htake
  · split at htake
    · rename_i hdue
      cases htake
      refine ⟨rfl, fun other hother => (hsaved other hother).resolve_right ?_⟩
      rintro ⟨-, -, hsame⟩
      simp [hsame] at hdue
    · cases htake
  · rename_i hpending
    split at htake
    · cases htake
      refine ⟨rfl, fun other hother => (hsaved other hother).resolve_right ?_⟩
      rintro ⟨-, hempty, -⟩
      simp [hempty] at hpending
    · cases htake

namespace Saved

variable {contiguous : Bool} {board after : Board}

theorem apply (h : Saved contiguous board) (event : RecordedEvent) :
    Saved contiguous (board.apply event) := by
  have hstanding := h.standing.apply event
  unfold Board.apply
  rcases Index.apply_cases board.index event with ⟨heq, hnone⟩ | ⟨hnew, -, -, hthrough, -⟩
  · rw [heq]
    exact ⟨h.standing, h.saved, h.flushing⟩
  · refine ⟨hstanding, ?_, ?_⟩
    · intro through hmem
      obtain ⟨applied, happlied, hle⟩ := h.saved through hmem
      have := hnew applied happlied
      exact ⟨_, hthrough, .inl (by omega)⟩
    · intro flush hflush
      obtain ⟨through, applied, hflushed, happlied, hall, hle⟩ := h.flushing flush hflush
      have := hnew applied happlied
      exact ⟨through, _, hflushed, hthrough, hall, .inl (by omega)⟩

theorem take (h : Saved contiguous board) {flush : Index.Flush} {index : Index} {due : Bool}
    (htake : board.index.take due = some (flush, index)) :
    Saved contiguous { board with flushing := some flush, index } := by
  obtain ⟨through, hthrough, hcases⟩ := Index.take_cases htake
  obtain ⟨hreach, hall⟩ := h.new htake hthrough
  have hindex : index = { board.index with pending := [] } := by
    rcases hcases with ⟨hempty, -, rfl⟩ | ⟨-, -, rfl⟩
    · rw [← hempty]
    · rfl
  subst hindex
  refine ⟨⟨h.standing.measured, h.standing.unmeasured, h.standing.contiguous,
    h.standing.remembered⟩, ?_, ?_⟩
  · intro other hother
    exact ⟨through, hthrough, .inl (hall other hother)⟩
  · intro taken htaken
    cases some.inj htaken
    exact ⟨through, through, by rw [hreach]; rfl, hthrough, hall, .inr ⟨rfl, rfl⟩⟩

theorem mem_reaches_save {disk : Disk} {through other : Nat} {reach : Reach}
    (h : other ∈ (disk.save through reach).reaches) : other ∈ disk.reaches ∨ other = through := by
  have hmem : other ∈ if disk.reaches.contains through then disk.reaches
      else disk.reaches.insert through reach := by
    by_contra hnone
    rw [ExtTreeMap.mem_iff_isSome_getElem?, Disk.save, getElem?_dropAll,
      ExtTreeMap.getElem?_eq_none hnone, ite_self] at h
    cases h
  split at hmem
  · exact .inl hmem
  · rw [ExtTreeMap.mem_insert, Std.LawfulEqCmp.compare_eq_iff_eq] at hmem
    exact hmem.symm.imp_right Eq.symm

section

variable (h : Saved contiguous board)

include h

theorem write {flush : Index.Flush} (hflush : board.flushing = some flush) (answer : PageAnswer)
    (saves : Bool) : Saved contiguous (board.write flush answer saves) := by
  obtain ⟨through, applied, hthrough, happlied, hall, hle⟩ := h.flushing flush hflush
  have hreaches := stores_reaches board.disk flush
  have hback : ∀ (disk : Disk) (page : Page), disk.reaches = board.disk.reaches →
      Saved contiguous
        { board with disk, index := board.index.putBack page, flushing := none } := by
    intro disk page hdisk
    refine ⟨⟨h.standing.measured, h.standing.unmeasured, h.standing.contiguous,
      h.standing.remembered⟩, ?_, by simp⟩
    intro other hother
    have := hall other (by rwa [← hdisk])
    exact ⟨applied, happlied, .inl (by omega)⟩
  have hwritten : ∀ disk : Disk, (∀ other ∈ disk.reaches,
      other ∈ board.disk.reaches ∨ other = through) → Saved contiguous
        { board with disk, index := board.index.flushed flush, flushing := none } := by
    intro disk hdisk
    refine ⟨⟨h.standing.measured, h.standing.unmeasured, h.standing.contiguous,
      h.standing.remembered⟩, ?_, by simp⟩
    intro other hother
    refine ⟨applied, happlied, ?_⟩
    rcases hdisk other hother with hold | rfl
    · have := hall other hold
      exact .inl (by omega)
    · rcases hle with hlt | ⟨rfl, hempty⟩
      · exact .inl hlt
      · exact .inr ⟨rfl, hempty, hthrough⟩
  have hsaves : ∀ disk : Disk, disk.reaches = board.disk.reaches → ∀ other ∈
      (if saves then disk.save through flush.reach else disk).reaches,
      other ∈ board.disk.reaches ∨ other = through := by
    intro disk hdisk other hother
    split at hother
    · simpa [hdisk] using mem_reaches_save hother
    · exact .inl (by rwa [← hdisk])
  unfold Board.write
  rw [hthrough]
  cases answer <;> cases hpage : flush.page
  · exact hwritten _ (hsaves _ hreaches)
  · exact hwritten _ (hsaves _ hreaches)
  · exact hwritten _ (hsaves _ rfl)
  · exact hback _ _ rfl
  · exact hwritten _ (hsaves _ hreaches)
  · exact hback _ _ hreaches

theorem prune (cutoffMs : Int) (deletes : Option Nat) :
    Saved contiguous (board.prune cutoffMs deletes) := by
  unfold Board.prune
  split
  · have hfields : (board.index.prunedTo cutoffMs).appliedThrough = board.index.appliedThrough ∧
        (board.index.prunedTo cutoffMs).pending = board.index.pending ∧
        (board.index.prunedTo cutoffMs).reach.through = board.index.reach.through := by
      unfold Index.prunedTo
      split <;> simp
    refine ⟨h.standing.prunedTo cutoffMs, ?_, ?_⟩
    · simpa [hfields, Disk.without] using h.saved
    · simpa [hfields, Disk.without] using h.flushing
  · exact ⟨h.standing, h.saved, h.flushing⟩

theorem step {act : Act} {out : List Answered} (hstep : board.act act = some (out, after)) :
    Saved contiguous after := by
  cases act with
  | apply event =>
    cases hstep
    exact h.apply event
  | take due =>
    simp only [Board.act] at hstep
    split at hstep
    · cases hstep
    · obtain ⟨⟨flush, index⟩, htake, heq⟩ := map_eq_some_iff.mp hstep
      cases heq
      exact h.take htake
  | write answer saves =>
    obtain ⟨flush, hflush, heq⟩ := map_eq_some_iff.mp hstep
    cases heq
    exact h.write hflush answer saves
  | prune cutoffMs deletes =>
    cases hstep
    exact h.prune cutoffMs deletes
  | ask project fromMs =>
    simp only [Board.act] at hstep
    split at hstep
    · cases hstep
    · cases hstep
      exact ⟨h.standing, h.saved, h.flushing⟩
  | answer nowMs =>
    obtain ⟨asked, -, heq⟩ := map_eq_some_iff.mp hstep
    cases heq
    exact ⟨h.standing, h.saved, h.flushing⟩

end

end Saved

theorem saved_new (contiguous : Bool) : Saved contiguous (.new contiguous) := by
  refine ⟨⟨MeasuredState.lawful_new, rfl, rfl, ?_⟩, ?_, ?_⟩ <;> simp [Board.new]

/-! ## A restart -/

/-- Two indexes read the rest of a log alike: the same calls with the same attribution, the same
measured counts and the same reach. -/
structure ReadAlike (index other : Index) (rest : List RecordedEvent) : Prop where
  calls : (rest.foldl Index.apply index).pending = (rest.foldl Index.apply other).pending
  measured : (rest.foldl Index.apply index).measured = (rest.foldl Index.apply other).measured
  reach : (rest.foldl Index.apply index).reach = (rest.foldl Index.apply other).reach

/-- A flush that is written and saved, and retention after it where it is due. -/
def flushNow (due : Bool) (retention : Option (Int × Option Nat)) : List Act :=
  [.take due, .write .written true] ++ retention.toList.map fun pruned => .prune pruned.1 pruned.2

/-- Retention leaves the index reading back to where it did. -/
def LeavesReach (index : Index) (retention : Option (Int × Option Nat)) : Prop :=
  ∀ cutoffMs, retention = some (cutoffMs, none) → index.reach.began = true →
    ∃ reachMs, index.reach.readsFromMs = some reachMs ∧ hourOf cutoffMs * hourMs ≤ reachMs

theorem raised_eq_self {from' : Option Int} {atMs : Int} :
    Index.raised from' atMs = from' ↔ ∃ reachMs, from' = some reachMs ∧ atMs ≤ reachMs := by
  cases from' with
  | none => simp [Index.raised]
  | some reachMs => simp [Index.raised]

/-- The index after retention, where it was due and went through. -/
def Index.retained (index : Index) (retention : Option (Int × Option Nat)) : Index :=
  match retention with
  | some (cutoffMs, none) => index.prunedTo cutoffMs
  | _ => index

theorem Index.retained_reach {retention : Option (Int × Option Nat)} :
    (index.retained retention).reach.readsFromMs = index.reach.readsFromMs ↔
      LeavesReach index retention := by
  unfold LeavesReach retained
  split
  · rename_i cutoffMs
    unfold prunedTo
    split
    · rename_i hbegan
      simp [raised_eq_self, hbegan]
    · rename_i hbegan
      simp [hbegan]
  · rename_i hnone
    simp only [true_iff]
    intro cutoffMs heq
    exact absurd heq (hnone cutoffMs)

theorem Index.retained_of_leaves {retention : Option (Int × Option Nat)}
    (h : LeavesReach index retention) : index.retained retention = index := by
  unfold retained
  split
  · unfold prunedTo
    split
    · rename_i hbegan
      rw [raised_eq_self.mpr (h _ rfl hbegan)]
    · rfl
  · rfl

/-- The index after a flush of all it applied. -/
def Index.flushedTo (index : Index) (through : Nat) : Index :=
  { index with pending := [], reach := { index.reach with through := some through } }

/-- The index, without the callers it remembers. -/
def Index.forgetful (index : Index) : Index := { index with callers := ∅, callerOrder := [] }

theorem load_flushNow {contiguous : Bool} {board : Board} (h : Saved contiguous board)
    (hidle : board.flushing = none) {due : Bool} (hdue : (board.index.take due).isSome = true)
    (retention : Option (Int × Option Nat)) :
    ∃ through, board.index.appliedThrough = some through ∧
      (indexing.last board (flushNow due retention)).index =
        (board.index.flushedTo through).retained retention ∧
      load (indexing.last board (flushNow due retention)).disk contiguous =
        (board.index.flushedTo through).forgetful := by
  obtain ⟨⟨flush, index⟩, htake⟩ := isSome_iff_exists.mp hdue
  obtain ⟨through, hthrough, hcases⟩ := Index.take_cases htake
  obtain ⟨hreach, hall⟩ := h.new htake hthrough
  have hindex : index = { board.index with pending := [] } := by
    rcases hcases with ⟨hempty, -, rfl⟩ | ⟨-, -, rfl⟩
    · rw [← hempty]
    · rfl
  subst hindex
  refine ⟨through, hthrough, ?_⟩
  generalize hwritten : Board.write { board with
    flushing := some flush, index := { board.index with pending := [] } } flush .written true =
      written
  have htaken : indexing.step board (.take due) = some ([], { board with
      flushing := some flush, index := { board.index with pending := [] } }) := by
    simp [indexing, Board.act, hidle, htake]
  have hwrite : indexing.step { board with
      flushing := some flush, index := { board.index with pending := [] } } (.write .written true) =
        some ([], written) := by
    simp [indexing, Board.act, hwritten]
  have hlast : indexing.last board (flushNow due retention) = retention.elim written
      fun pruned => written.prune pruned.1 pruned.2 := by
    rw [flushNow, cons_append, cons_append, Machine.last_cons_some htaken,
      Machine.last_cons_some hwrite]
    cases retention <;> rfl
  have hindex : written.index = board.index.flushedTo through := by
    rw [← hwritten]
    cases flush.page <;>
      simp [Board.write, Index.flushed, Index.flushedTo, hreach, Index.reachThrough]
  have hfurthest : written.disk.furthest = some flush.reach := by
    have hreaches : ∀ other ∈ (Board.stores board.disk flush).reaches, other < through := by
      rwa [stores_reaches]
    rw [← hwritten]
    cases hpage : flush.page <;>
      simpa [Board.write, hpage, hreach, Index.reachThrough] using
        Disk.furthest_save flush.reach hreaches
  rw [hlast]
  constructor
  · rw [← hindex]
    rcases retention with _ | ⟨cutoffMs, _ | deletes⟩ <;> rfl
  · have hdisk : (retention.elim written fun pruned =>
        written.prune pruned.1 pruned.2).disk.furthest = some flush.reach := by
      cases retention with
      | none => exact hfurthest
      | some pruned => exact hfurthest
    rw [load, hdisk, hreach]
    simp [Index.forgetful, Index.flushedTo, Index.reachThrough, fromKept_kept h.standing.measured, hthrough,
      h.standing.unmeasured, h.standing.contiguous]

/-- The end of a call of some run, that says what it asked in. -/
def endOf (runId : String) (position : Nat) : RecordedEvent where
  eventType := .llmCompleted
  data := .object
    [("asked_digests", .array [.string "0123456789abcdef0123456789abcdef"])]
  metadata := ⟨"message", "run:run-1", .ofNat position, 1, 1, none, "", "", runId, none, none,
    none, none, none, none, none, none, none, none, "", 1, ⟨"service", none, "rust", none⟩, 0, 1⟩

theorem adds_endOf {runId : String} {position : Nat} (hsmall : position < 2 ^ 64)
    (hnew : ∀ through ∈ index.appliedThrough, through < position) :
    (index.apply (endOf runId position)).pending.map AskedCall.callerRunId =
      index.pending.map AskedCall.callerRunId ++ [index.callers[runId]?] := by
  have hposition : positionOf (endOf runId position) = position :=
    UInt64.toNat_ofNat_of_lt' hsmall
  have hpassed : index.passed (endOf runId position) = false := by
    rw [Index.passed, hposition, Option.any_eq_false]
    simpa using hnew
  have hasked : Trace.digestsOf (endOf runId position) "asked_digests" Trace.isDigest =
      ["0123456789abcdef0123456789abcdef"] := by
    simp only [Trace.digestsOf, endOf]
    decide +kernel
  have hcall : (index.noted (endOf runId position)).callOf (endOf runId position) =
      some ⟨position, 0, runId, index.callers[runId]?, none, none, none, none, none, none,
        ["0123456789abcdef0123456789abcdef"], []⟩ := by
    unfold Index.callOf
    rw [hasked, hposition]
    rfl
  have hforget : ∀ index : Index, index.forget (endOf runId position) = index := fun _ => rfl
  have hpending : (index.noted (endOf runId position)).pending = index.pending := rfl
  rw [Index.apply, hpassed, hforget, hcall, hpending]
  simp

/-- **A restart changes nothing**, where the index remembers no run's caller and retention leaves
its reach alone; and where a restart never changes anything, no caller is remembered and
retention does leave it. -/
theorem restart_changes_nothing {contiguous : Bool} {acts : List Act} {board : Board}
    (hreached : indexing.last (.new contiguous) acts = board) (hidle : board.flushing = none)
    {due : Bool} (hdue : (board.index.take due).isSome = true)
    (retention : Option (Int × Option Nat)) :
    let after := indexing.last board (flushNow due retention)
    (board.index.callerOrder = [] ∧ LeavesReach board.index retention →
      ∀ rest, ReadAlike (load after.disk contiguous) after.index rest) ∧
    ((∀ rest, ReadAlike (load after.disk contiguous) after.index rest) →
      LeavesReach board.index retention ∧
        ∀ through ∈ board.index.appliedThrough, through + 1 < 2 ^ 64 →
          ∀ runId, runId ∉ board.index.callers) := by
  have hsaved : Saved contiguous board := by
    rw [← hreached]
    exact Machine.inv_last (M := indexing) (Saved contiguous) (fun _ _ _ _ h hstep => h.step hstep)
      (saved_new contiguous) acts
  obtain ⟨through, hthrough, hafter, hloaded⟩ := load_flushNow hsaved hidle hdue retention
  intro after
  constructor
  · rintro ⟨horder, hleaves⟩ rest
    have hcallers : board.index.callers = ∅ := by
      rw [Std.ExtTreeMap.eq_empty_iff_forall_not_mem]
      intro runId hmem
      simpa [horder] using hsaved.standing.remembered runId hmem
    have hretained : (board.index.flushedTo through).retained retention =
        board.index.flushedTo through := Index.retained_of_leaves hleaves
    have hsame : load after.disk contiguous = after.index := by
      rw [hloaded, hafter, hretained]
      simp [Index.forgetful, Index.flushedTo, hcallers, horder]
    rw [hsame]
    exact ⟨rfl, rfl, rfl⟩
  · intro hsame
    rw [hloaded, hafter] at hsame
    have hreach : (board.index.flushedTo through).reach =
        ((board.index.flushedTo through).retained retention).reach := (hsame []).reach
    have hleaves : LeavesReach (board.index.flushedTo through) retention :=
      Index.retained_reach.mp (congrArg Reach.readsFromMs hreach).symm
    refine ⟨hleaves, fun last hlast hsmall runId hmem => ?_⟩
    cases Option.some.inj (hthrough.symm.trans hlast)
    rw [Index.retained_of_leaves hleaves] at hsame
    have hcalls := congrArg (List.map AskedCall.callerRunId) (hsame [endOf runId (through + 1)]).calls
    simp only [List.foldl_cons, List.foldl_nil] at hcalls
    have hnew : ∀ other ∈ board.index.appliedThrough, other < through + 1 := by simp [hthrough]
    have hlive : ((board.index.flushedTo through).apply
        (endOf runId (through + 1))).pending.map AskedCall.callerRunId =
          [board.index.callers[runId]?] := adds_endOf hsmall hnew
    have hload : ((board.index.flushedTo through).forgetful.apply
        (endOf runId (through + 1))).pending.map AskedCall.callerRunId =
          [(∅ : BTreeMap String String)[runId]?] := adds_endOf hsmall hnew
    rw [hlive, hload] at hcalls
    have hnone : (none : Option String) = board.index.callers[runId]? := by
      simpa using hcalls
    rw [Std.ExtTreeMap.mem_iff_isSome_getElem?, ← hnone] at hmem
    cases hmem

/-! ## A run that is served across a restart -/

/-- A run that is opened to serve another one, or that ends. -/
def servingRun (eventType : EventType) (position : Nat) : RecordedEvent where
  eventType := eventType
  data := .object [("caller_run_id", .string "run-0")]
  metadata := ⟨"message", "run:run-1", .ofNat position, 1, 1, none, "", "", "run-1", none, none,
    none, none, none, none, none, none, none, none, "", 1, ⟨"service", none, "rust", none⟩, 0, 1⟩

/-- A call of a run that serves another one, and the end of that run. -/
def served : List Act :=
  [.apply (servingRun .runStarted 1), .apply (endOf "run-1" 2),
    .apply (servingRun .runCompleted 3)]

theorem served_restarts :
    ReadAlike (load (indexing.last (indexing.last (.new true) served) (flushNow true none)).disk true)
      (indexing.last (indexing.last (.new true) served) (flushNow true none)).index
      [endOf "run-1" 4] :=
  (restart_changes_nothing rfl (by decide +kernel) (by decide +kernel) none).1
    ⟨by decide +kernel, fun _ hnone => nomatch hnone⟩ _

/-- An index flushed while a run serves another one, and loaded, attributes the run's next call to
nobody. -/
theorem restart_forgets_the_caller :
    ¬ ∀ rest, ReadAlike
      (load (indexing.last (.new true)
        (.apply (servingRun .runStarted 1) :: flushNow true none)).disk true)
      (indexing.last (.new true) (.apply (servingRun .runStarted 1) :: flushNow true none)).index
      rest := by
  intro h
  have hcalls := (h [endOf "run-1" 2]).calls
  exact absurd hcalls (by decide +kernel)

end Aiwatcher.Asked
