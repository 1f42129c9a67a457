import Aiwatcher.Asked.Index

/-!
# Aiwatcher.Asked.Since

What a read of the index answers, in any order of events, flushes, prunes and reads.

A read takes what is in memory, and looks into the store afterwards.  What it answers is always
applied, asked for and told once; `Admits` is when it also misses nothing, and the last section
has runs on which it does.
-/

namespace Aiwatcher.Asked

open Library Periods List Option

/-! ## The board -/

/-- A read that has taken what is in memory. -/
structure Asking where
  ask : Ask
  /-- The calls applied by then. -/
  before : List AskedCall
  /-- The calls among them that were on their way to the store. -/
  onTheirWay : List AskedCall

/-- The index and its store, with what is under way. -/
structure Board where
  index : Index
  disk : Disk := {}
  /-- A flush that has taken its calls, until its page is written. -/
  flushing : Option Index.Flush := none
  asking : Option Asking := none
  /-- The calls applied so far. -/
  applied : List AskedCall := []

/-- A read that was answered. -/
structure Answered where
  ask : Ask
  /-- The calls applied when it was asked. -/
  before : List AskedCall
  /-- The calls applied when it was answered. -/
  applied : List AskedCall
  since : AskedSince

inductive Act where
  | apply (event : RecordedEvent)
  /-- a flush takes what waits, if it is due -/
  | take (due : Bool)
  /-- its page is written and its reach is saved -/
  | write (answer : PageAnswer) (saves : Bool)
  /-- retention, with the deletions that succeed where not all do -/
  | prune (cutoffMs : Int) (deletes : Option Nat)
  | ask (project : Option Store.ProjectScope) (fromMs : Int)
  | answer (nowMs : Int)

namespace Board

/-- Nothing applied and nothing stored. -/
def new (contiguous : Bool) : Board := { index := { contiguous } }

/-- The calls of a page that is not written yet. -/
def inFlight (board : Board) : List AskedCall :=
  (board.flushing.bind Index.Flush.page).toList.flatMap Page.calls

def apply (board : Board) (event : RecordedEvent) : Board :=
  { board with
    index := board.index.apply event
    applied := board.applied ++ (board.index.adds event).toList }

/-- A page goes to the store. -/
def stores (disk : Disk) (flush : Index.Flush) : Disk :=
  flush.page.elim disk disk.create

/-- A flush goes on from its taking. -/
def write (board : Board) (flush : Index.Flush) (answer : PageAnswer) (saves : Bool) : Board :=
  let stored := match answer with
    | .refused => board.disk
    | .written | .lost => stores board.disk flush
  match answer, flush.page with
  | .refused, some page | .lost, some page =>
    { board with disk := stored, index := board.index.putBack page, flushing := none }
  | _, _ =>
    { board with
      disk := flush.reach.through.elim stored fun through =>
        if saves then stored.save through flush.reach else stored
      index := board.index.flushed flush
      flushing := none }

def prune (board : Board) (cutoffMs : Int) (deletes : Option Nat) : Board :=
  { board with
    disk := board.disk.without (board.disk.expired cutoffMs deletes)
    index := if deletes.isNone then board.index.prunedTo cutoffMs else board.index }

/-- One act, where it can be done: one flush and one read at a time. -/
def act (board : Board) : Act → Option (List Answered × Board)
  | .apply event => some ([], board.apply event)
  | .take due =>
    if board.flushing.isSome then none
    else (board.index.take due).map fun taken =>
      ([], { board with flushing := some taken.1, index := taken.2 })
  | .write answer saves => board.flushing.map fun flush => ([], board.write flush answer saves)
  | .prune cutoffMs deletes => some ([], board.prune cutoffMs deletes)
  | .ask project fromMs =>
    if board.asking.isSome then none
    else some ([], { board with
      asking := some ⟨board.index.ask project fromMs, board.applied, board.inFlight⟩ })
  | .answer nowMs => board.asking.map fun asked =>
    ([⟨asked.ask, asked.before, board.applied, asked.ask.answer board.disk nowMs⟩],
      { board with asking := none })

end Board

def indexing : Machine Board Act Answered where
  step := Board.act

/-! ## What is promised -/

/-- A moment the index says it does not read back to. -/
def Beyond (reachesFromMs : Option Int) (call : AskedCall) : Prop :=
  ∃ reachMs, reachesFromMs = some reachMs ∧ call.atMs < reachMs

instance (reachesFromMs : Option Int) (call : AskedCall) : Decidable (Beyond reachesFromMs call) :=
  decidable_of_iff (reachesFromMs.any (call.atMs < ·) = true)
    (by simp [Beyond, Option.any_eq_true])

/-- A read answers the calls it is asked for within the reach it states, and no others. -/
def Exact (answered : Answered) : Prop :=
  ∀ call, call ∈ answered.since.calls ↔ call ∈ answered.applied ∧
    call.project = answered.ask.project ∧ answered.ask.fromMs ≤ call.atMs ∧
    ¬ Beyond answered.since.reachesFromMs call

/-- What a read answers is applied, asked for and told once. -/
structure Sound (answered : Answered) : Prop where
  once : answered.since.calls.Pairwise fun call later => call.position < later.position
  only : ∀ call ∈ answered.since.calls, call ∈ answered.applied ∧
    call.project = answered.ask.project ∧ answered.ask.fromMs ≤ call.atMs

/-- A read misses no call it was asked for within the reach it states. -/
def Complete (answered : Answered) : Prop :=
  ∀ call ∈ answered.before, call.project = answered.ask.project → answered.ask.fromMs ≤ call.atMs →
    ¬ Beyond answered.since.reachesFromMs call → call ∈ answered.since.calls

/-- A call is on a page of the store. -/
def Disk.holds (disk : Disk) (call : AskedCall) : Prop := ∃ page ∈ disk.pages, call ∈ page.calls

instance (disk : Disk) (call : AskedCall) : Decidable (disk.holds call) :=
  inferInstanceAs (Decidable (∃ page ∈ disk.pages, call ∈ page.calls))

/-- When reads miss nothing: pages run on at most an hour past the one they are filed under,
retention removes only calls the index then says it does not reach, a page that was on its way
when a read was asked is there when it looks, and no page is filed under an hour to come. -/
def Admits (board : Board) : Act → Prop
  | .take due => ∀ taken ∈ board.index.take due, ∀ page ∈ taken.1.page,
      ∀ call ∈ page.calls, hourOf call.atMs ≤ page.hour + 1
  | .prune cutoffMs deletes => ∀ page ∈ board.disk.expired cutoffMs deletes,
      ∀ call ∈ page.calls, Beyond (board.prune cutoffMs deletes).index.reach.readsFromMs call ∧
        ∀ asked ∈ board.asking, Beyond asked.ask.reachesFromMs call
  | .answer nowMs => (∀ page ∈ board.disk.pages, page.hour ≤ hourOf nowMs) ∧
      ∀ asked ∈ board.asking, ∀ call ∈ asked.onTheirWay,
        board.disk.holds call ∨ Beyond asked.ask.reachesFromMs call
  | .apply _ | .write _ _ | .ask _ _ => True

instance : (board : Board) → (act : Act) → Decidable (Admits board act)
  | board, .take due => inferInstanceAs (Decidable (∀ taken ∈ board.index.take due,
      ∀ page ∈ taken.1.page, ∀ call ∈ page.calls, hourOf call.atMs ≤ page.hour + 1))
  | board, .prune cutoffMs deletes => inferInstanceAs (Decidable (
      ∀ page ∈ board.disk.expired cutoffMs deletes, ∀ call ∈ page.calls,
        Beyond (board.prune cutoffMs deletes).index.reach.readsFromMs call ∧
          ∀ asked ∈ board.asking, Beyond asked.ask.reachesFromMs call))
  | board, .answer nowMs => inferInstanceAs (Decidable (
      (∀ page ∈ board.disk.pages, page.hour ≤ hourOf nowMs) ∧
        ∀ asked ∈ board.asking, ∀ call ∈ asked.onTheirWay,
          board.disk.holds call ∨ Beyond asked.ask.reachesFromMs call))
  | _, .apply _ | _, .write _ _ | _, .ask _ _ => inferInstanceAs (Decidable True)

/-! ## The index -/

namespace Index

variable {index : Index} {event : RecordedEvent}

theorem remember_fields : (index.remember event).pending = index.pending ∧
    (index.remember event).reach = index.reach ∧
    (index.remember event).appliedThrough = index.appliedThrough := by
  unfold remember
  split
  · split <;> simp
  · simp

theorem forget_fields : (index.forget event).pending = index.pending ∧
    (index.forget event).reach = index.reach ∧
    (index.forget event).appliedThrough = index.appliedThrough := by
  unfold forget
  split
  · split <;> simp
  · simp

variable {call : AskedCall}

theorem position_of_callOf (h : index.callOf event = some call) :
    call.position = positionOf event := by
  unfold callOf at h
  split at h
  · dsimp only at h
    split at h
    · cases h
    · cases h
      rfl
  · cases h

theorem apply_cases (index : Index) (event : RecordedEvent) :
    (index.apply event = index ∧ index.adds event = none) ∨
      ((∀ through, index.appliedThrough = some through → through < positionOf event) ∧
        (index.apply event).pending = index.pending ++ (index.adds event).toList ∧
        (index.apply event).reach = index.reached (positionOf event)
          (millis event.metadata.occurredAt) ∧
        (index.apply event).appliedThrough = some (positionOf event) ∧
        ∀ call, index.adds event = some call → call.position = positionOf event) := by
  by_cases hpassed : index.passed event = true
  · exact .inl ⟨by simp [apply, hpassed], by simp [adds, hpassed]⟩
  · right
    refine ⟨?_, ?_, ?_, ?_, ?_⟩
    · simpa [passed, Option.any_eq_true] using hpassed
    · simp [apply, adds, hpassed, noted, forget_fields, remember_fields]
    · simp [apply, hpassed, noted, forget_fields, remember_fields]
    · simp [apply, hpassed, noted, forget_fields, remember_fields]
    · intro call hcall
      rw [adds, if_neg hpassed] at hcall
      exact position_of_callOf hcall

theorem beyond_raised {from' : Option Int} (atMs : Int) (h : Beyond from' call) :
    Beyond (raised from' atMs) call := by
  obtain ⟨reachMs, rfl, hlt⟩ := h
  exact ⟨max reachMs atMs, rfl, by omega⟩

theorem beyond_reached (position : Nat) (atMs : Int) (h : Beyond index.reach.readsFromMs call) :
    Beyond (index.reached position atMs).readsFromMs call := by
  unfold reached
  dsimp only
  split
  · dsimp only
    split
    · exact h
    · exact beyond_raised atMs h
  · exact h

theorem take_cases {due : Bool} {flush : Flush} {after : Index}
    (h : index.take due = some (flush, after)) :
    ∃ through, index.appliedThrough = some through ∧
      ((index.pending = [] ∧ flush.page = none ∧ after = index) ∨
        (flush.page = pageOf index.pending through ∧ index.pending ≠ [] ∧
          after = { index with pending := [] })) := by
  unfold take at h
  obtain ⟨through, hthrough, h⟩ := bind_eq_some_iff.mp h
  refine ⟨through, hthrough, ?_⟩
  split at h
  · rename_i hempty
    split at h
    · cases h
      exact .inl ⟨by simpa using hempty, rfl, rfl⟩
    · cases h
  · rename_i hpending
    split at h
    · cases h
      exact .inr ⟨rfl, by simpa using hpending, rfl⟩
    · cases h

end Index

/-! ## Pages -/

/-- The calls a page covers. -/
def Page.covers (page : Page) (call : AskedCall) : Bool :=
  page.first ≤ call.position && call.position ≤ page.last

/-- A page holds the calls applied at the positions it covers, and runs on an hour at most. -/
structure Filed (applied : List AskedCall) (page : Page) : Prop where
  calls : page.calls = applied.filter page.covers
  hours : ∀ call ∈ page.calls, hourOf call.atMs ≤ page.hour + 1

theorem Filed.append {applied calls : List AskedCall} {page : Page} (h : Filed applied page)
    (hlater : ∀ call ∈ calls, page.last < call.position) : Filed (applied ++ calls) page where
  calls := by
    have hnone : calls.filter page.covers = [] := by
      simp only [filter_eq_nil_iff, Page.covers, Bool.and_eq_true, decide_eq_true_eq]
      intro call hmem
      have := hlater call hmem
      omega
    rw [filter_append, hnone, append_nil, h.calls]
  hours := h.hours

theorem filed_of_suffix {applied rest : List AskedCall} {call : AskedCall} {last : Nat}
    (hordered : applied.Pairwise fun call later => call.position < later.position)
    (hlast : ∀ call ∈ applied, call.position ≤ last) (hsuffix : call :: rest <:+ applied)
    (hhours : ∀ other ∈ call :: rest, hourOf other.atMs ≤ hourOf call.atMs + 1) :
    Filed applied ⟨hourOf call.atMs, call.position, last, call :: rest⟩ where
  calls := by
    obtain ⟨front, rfl⟩ := hsuffix
    rw [pairwise_append, pairwise_cons] at hordered
    have hfront : front.filter (Page.covers
        ⟨hourOf call.atMs, call.position, last, call :: rest⟩) = [] := by
      simp only [filter_eq_nil_iff, Page.covers, Bool.and_eq_true, decide_eq_true_eq]
      intro other hmem
      have := hordered.2.2 other hmem call mem_cons_self
      omega
    have hrest : (call :: rest).filter (Page.covers
        ⟨hourOf call.atMs, call.position, last, call :: rest⟩) = call :: rest := by
      simp only [filter_eq_self, Page.covers, Bool.and_eq_true, decide_eq_true_eq]
      intro other hmem
      have hle := hlast other (mem_append_right _ hmem)
      rcases mem_cons.mp hmem with rfl | hmem
      · exact ⟨le_refl _, hle⟩
      · exact ⟨(hordered.2.1.1 other hmem).le, hle⟩
    rw [filter_append, hfront, hrest, nil_append]
  hours := hhours

theorem Filed.calls_eq {applied : List AskedCall} {page other : Page} (h : Filed applied page)
    (hother : Filed applied other) (hkey : page.sameKey other = true) :
    page.calls = other.calls := by
  simp only [Page.sameKey, Bool.and_eq_true, beq_iff_eq] at hkey
  have hcovers : page.covers = other.covers := by
    funext call
    simp [Page.covers, hkey.1.2, hkey.2]
  rw [h.calls, hother.calls, hcovers]

/-! ## What is always so -/

/-- Calls are applied in the order of their positions, what waits is the end of them, and
nothing else is anywhere. -/
structure Orderly (board : Board) : Prop where
  ordered : board.applied.Pairwise fun call later => call.position < later.position
  through : ∀ call ∈ board.applied,
    ∃ through, board.index.appliedThrough = some through ∧ call.position ≤ through
  waiting : board.inFlight ++ board.index.pending <:+ board.applied
  pages : ∀ page ∈ board.disk.pages, ∀ call ∈ page.calls, call ∈ board.applied
  asking : ∀ asked, board.asking = some asked →
    (∀ call ∈ asked.ask.pending, call ∈ board.applied) ∧ ∀ call ∈ asked.before, call ∈ board.applied

theorem pages_save (disk : Disk) (through : Nat) (reach : Reach) :
    (disk.save through reach).pages = disk.pages := rfl

theorem mem_pages_create {disk : Disk} {page other : Page} (h : other ∈ (disk.create page).pages) :
    other ∈ disk.pages ∨ other = page := by
  unfold Disk.create at h
  split at h
  · exact .inl h
  · simpa using h

theorem mem_pages_without {disk : Disk} {gone : List Page} {page : Page} :
    page ∈ (disk.without gone).pages ↔ page ∈ disk.pages ∧ page ∉ gone := by
  simp [Disk.without]

namespace Orderly

variable {board after : Board} {event : RecordedEvent}

section

variable (h : Orderly board)

include h

theorem apply (event : RecordedEvent) : Orderly (board.apply event) := by
  unfold Board.apply
  rcases Index.apply_cases board.index event with
    ⟨heq, hnone⟩ | ⟨hnew, hpending, -, hthrough, hposition⟩
  · rw [heq, hnone, toList_none, append_nil]
    exact h
  · have hlater : ∀ call ∈ board.applied, ∀ added ∈ (board.index.adds event).toList,
        call.position < added.position := by
      intro call hcall added hadded
      obtain ⟨through, hsome, hle⟩ := h.through call hcall
      have hlt := hnew through hsome
      have := hposition added (by simpa using hadded)
      omega
    constructor
    · refine pairwise_append.mpr ⟨h.ordered, ?_, hlater⟩
      cases board.index.adds event <;> simp
    · intro call hcall
      refine ⟨positionOf event, hthrough, ?_⟩
      rcases mem_append.mp hcall with hcall | hcall
      · obtain ⟨through, hsome, hle⟩ := h.through call hcall
        have := hnew through hsome
        omega
      · rw [hposition call (by simpa using hcall)]
    · obtain ⟨front, hfront⟩ := h.waiting
      exact ⟨front, by simp only [Board.inFlight] at hfront ⊢; simp [hpending, ← hfront]⟩
    · intro page hpage call hcall
      exact mem_append_left _ (h.pages page hpage call hcall)
    · intro asked hasked
      obtain ⟨hpending, hbefore⟩ := h.asking asked hasked
      exact ⟨fun call hcall => mem_append_left _ (hpending call hcall),
        fun call hcall => mem_append_left _ (hbefore call hcall)⟩

theorem take {flush : Index.Flush} {index : Index} {due : Bool} (hnone : board.flushing = none)
    (htake : board.index.take due = some (flush, index)) :
    Orderly { board with flushing := some flush, index } := by
  obtain ⟨through, hthrough, ⟨hempty, hpage, rfl⟩ | ⟨hpage, -, rfl⟩⟩ := Index.take_cases htake
  · exact ⟨h.ordered, h.through, by simpa [Board.inFlight, hpage, hnone] using h.waiting, h.pages,
      h.asking⟩
  · refine ⟨h.ordered, h.through, ?_, h.pages, h.asking⟩
    have hwaiting := h.waiting
    cases hpending : board.index.pending with
    | nil => simp [Board.inFlight, hpage, hpending, Index.pageOf]
    | cons call rest =>
      simpa [Board.inFlight, hpage, hpending, hnone, Index.pageOf] using hwaiting

theorem write {flush : Index.Flush} (hflush : board.flushing = some flush) (answer : PageAnswer)
    (saves : Bool) : Orderly (board.write flush answer saves) := by
  have hwaiting := h.waiting
  have hpage : ∀ page, flush.page = some page → ∀ call ∈ page.calls, call ∈ board.applied := by
    intro page hpage call hcall
    apply hwaiting.mem
    simp [Board.inFlight, hflush, hpage, hcall]
  have hstores : ∀ page ∈ (Board.stores board.disk flush).pages, ∀ call ∈ page.calls,
      call ∈ board.applied := by
    intro page hmem
    unfold Board.stores at hmem
    cases hsome : flush.page with
    | none =>
      rw [hsome] at hmem
      exact h.pages page hmem
    | some written =>
      rw [hsome] at hmem
      rcases mem_pages_create hmem with hmem | rfl
      · exact h.pages page hmem
      · exact hpage _ hsome
  have hsuffix : board.index.pending <:+ board.applied :=
    (suffix_append _ _).trans hwaiting
  unfold Board.write
  cases hsome : flush.page with
  | none =>
    have hdisk : ∀ disk : Disk, disk.pages = board.disk.pages →
        Orderly { board with disk, index := board.index.flushed flush, flushing := none } := by
      intro disk hdisk
      refine ⟨h.ordered, h.through, ?_, by simpa [hdisk] using h.pages, h.asking⟩
      simpa [Board.inFlight, Index.flushed] using hsuffix
    cases answer <;>
      · apply hdisk
        cases flush.reach.through <;> simp [Board.stores, hsome]
        split <;> simp [pages_save]
  | some page =>
    have hback : ∀ disk : Disk, (∀ page ∈ disk.pages, ∀ call ∈ page.calls, call ∈ board.applied) →
        Orderly { board with disk, index := board.index.putBack page, flushing := none } := by
      intro disk hdisk
      refine ⟨h.ordered, h.through, ?_, hdisk, h.asking⟩
      simpa [Board.inFlight, Index.putBack, hflush, hsome] using hwaiting
    cases answer with
    | refused => exact hback board.disk h.pages
    | lost => exact hback _ hstores
    | written =>
      refine ⟨h.ordered, h.through, ?_, ?_, h.asking⟩
      · simpa [Board.inFlight, Index.flushed] using hsuffix
      · dsimp only
        cases flush.reach.through with
        | none => exact hstores
        | some through =>
          dsimp only [elim_some]
          split <;> exact hstores

theorem prune (cutoffMs : Int) (deletes : Option Nat) : Orderly (board.prune cutoffMs deletes) := by
  have hindex : (board.prune cutoffMs deletes).index.appliedThrough = board.index.appliedThrough ∧
      (board.prune cutoffMs deletes).index.pending = board.index.pending := by
    unfold Board.prune Index.prunedTo
    dsimp only
    split
    · split <;> exact ⟨rfl, rfl⟩
    · exact ⟨rfl, rfl⟩
  refine ⟨h.ordered, ?_, ?_, ?_, h.asking⟩
  · rw [hindex.1]
    exact h.through
  · rw [hindex.2]
    exact h.waiting
  · intro page hpage
    exact h.pages page (mem_pages_without.mp hpage).1

theorem step {act : Act} {out : List Answered} (hstep : board.act act = some (out, after)) :
    Orderly after := by
  cases act with
  | apply event =>
    cases hstep
    exact h.apply event
  | take due =>
    simp only [Board.act] at hstep
    split at hstep
    · cases hstep
    · rename_i hfree
      obtain ⟨⟨flush, index⟩, htake, heq⟩ := map_eq_some_iff.mp hstep
      cases heq
      exact h.take (by simpa using hfree) htake
  | write answer saves =>
    obtain ⟨flush, hflush, heq⟩ := map_eq_some_iff.mp hstep
    cases heq
    exact h.write hflush answer saves
  | prune cutoffMs deletes =>
    cases hstep
    exact h.prune cutoffMs deletes
  | ask project fromMs =>
    simp only [Board.act] at hstep
    split at hstep
    · cases hstep
    · cases hstep
      refine ⟨h.ordered, h.through, h.waiting, h.pages, ?_⟩
      intro asked hasked
      cases some.inj hasked
      exact ⟨fun call hcall => h.waiting.mem (mem_append_right _ hcall), fun _ hcall => hcall⟩
  | answer nowMs =>
    obtain ⟨asked, hasked, heq⟩ := map_eq_some_iff.mp hstep
    cases heq
    exact ⟨h.ordered, h.through, h.waiting, h.pages, by simp⟩

end

end Orderly

theorem orderly_new (contiguous : Bool) : Orderly (.new contiguous) := by
  constructor <;> simp [Board.new, Board.inFlight]

end Aiwatcher.Asked
