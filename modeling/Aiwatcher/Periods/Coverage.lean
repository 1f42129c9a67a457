import Aiwatcher.Periods.Journal
import Mathlib.Data.List.Pairwise

/-!
# Aiwatcher.Periods.Coverage

What the pages of a journal cover.

Pages are closed in the order of their positions and wait in that order, so a checkpoint that is
committed lies before whatever still waits or is being read: `Covering` says it of the journal
and of what it has told, and each part of a turn keeps it.
-/

namespace Aiwatcher.Periods

open Library List Machine

/-! ## What is promised -/

/-- The pages of a journal: closed, or still being read. -/
def PageOf (told : List Paged) (journal : Journal) (page : JournalPage) : Prop :=
  .closed page ∈ told ∨ journal.held.reading = some page

def closedPages (told : List Paged) : List JournalPage :=
  told.filterMap fun
    | .closed page => some page
    | _ => none

@[simp] theorem closedPages_append (told out : List Paged) :
    closedPages (told ++ out) = closedPages told ++ closedPages out := by
  simp [closedPages]

variable {event : RecordedEvent} {held : Held} {journal : Journal} {page : JournalPage}

@[simp] theorem mem_closedPages {told : List Paged} :
    page ∈ closedPages told ↔ .closed page ∈ told := by
  simp only [closedPages, mem_filterMap]
  constructor
  · rintro ⟨output, hmem, heq⟩
    split at heq <;> grind
  · exact fun hmem => ⟨.closed page, hmem, rfl⟩

/-- Each position a page claims was read into it. -/
structure ReadIn (told : List Paged) (page : JournalPage) : Prop where
  le : page.first ≤ page.last
  read : ∀ position, page.Claims position → ∃ event, .given event ∈ told ∧
    positionOf event = position ∧ (reads event = true → kept event ∈ page.events)

/-- Where the pages of a journal are. -/
structure Covering (told : List Paged) (journal : Journal) : Prop where
  ordered : (closedPages told).Pairwise fun page later => page.last < later.first
  readIn : ∀ page, PageOf told journal page → ReadIn told page
  through : ∀ page, .closed page ∈ told →
    ∃ through, journal.held.through = some through ∧ page.last ≤ through
  reading : ∀ page, journal.held.reading = some page → ∀ through,
    journal.held.through = some through → through < page.first
  waiting : journal.held.waiting <:+ closedPages told
  left : ∀ page, .closed page ∈ told →
    page ∈ journal.held.waiting ∨ .stored page ∈ told ∨ .letGo page ∈ told
  stored : ∀ page, .stored page ∈ told → .closed page ∈ told
  disk : ∀ page ∈ journal.disk, .stored page ∈ told
  committed : ∀ checkpoint, journal.committed = some checkpoint →
    (∀ page ∈ journal.held.waiting, checkpoint < page.first) ∧
      ∃ through, journal.held.through = some through ∧ checkpoint ≤ through

theorem ReadIn.append {told : List Paged} (h : ReadIn told page) (out : List Paged) :
    ReadIn (told ++ out) page where
  le := h.le
  read position hclaims := by
    obtain ⟨event, hgiven, hevent⟩ := h.read position hclaims
    exact ⟨event, mem_append_left _ hgiven, hevent⟩

namespace Covering

variable {told : List Paged} {journal : Journal} {page : JournalPage} {event : RecordedEvent}
  {answers : Nat → Keeping}

theorem given (h : Covering told journal) (event : RecordedEvent) :
    Covering (told ++ [.given event]) journal where
  ordered := by simpa [closedPages] using h.ordered
  readIn page hpage := (h.readIn page (by simpa [PageOf] using hpage)).append _
  through page hmem := h.through page (by simpa using hmem)
  reading := h.reading
  waiting := by simpa [closedPages] using h.waiting
  left page hmem := by simpa using h.left page (by simpa using hmem)
  stored page hmem := by simpa using h.stored page (by simpa using hmem)
  disk page hmem := by simpa using h.disk page hmem
  committed := h.committed

/-! ### Reading -/

theorem readPage (h : Covering told journal) (hread : ReadIn told page)
    (hthrough : ∀ through, journal.held.through = some through → through < page.first) :
    Covering told { journal with held := { journal.held with reading := some page } } where
  ordered := h.ordered
  readIn other hother := by
    rcases hother with hclosed | hreading
    · exact h.readIn other (.inl hclosed)
    · exact Option.some.inj hreading ▸ hread
  through := h.through
  reading other hother := Option.some.inj hother ▸ hthrough
  waiting := h.waiting
  left := h.left
  stored := h.stored
  disk := h.disk
  committed := h.committed

theorem closeReading (h : Covering told journal) (hreading : journal.held.reading = some page) :
    Covering (told ++ [.closed page])
      { journal with held := ⟨journal.held.waiting ++ [page], none, some page.last⟩ } := by
  have hpage := h.readIn page (.inr hreading)
  have hafter : ∀ other, .closed other ∈ told → other.last < page.first := by
    intro other hother
    obtain ⟨through, hthrough, hle⟩ := h.through other hother
    have := h.reading page hreading through hthrough
    omega
  have hle := hpage.le
  constructor
  · simp only [closedPages_append, pairwise_append]
    refine ⟨h.ordered, by simp [closedPages], ?_⟩
    intro other hother later hlater
    simp only [mem_closedPages, mem_singleton, Paged.closed.injEq] at hother hlater
    exact hlater ▸ hafter other hother
  · rintro other (hother | hother)
    · simp only [mem_append, mem_singleton, Paged.closed.injEq] at hother
      rcases hother with hother | rfl
      · exact (h.readIn other (.inl hother)).append _
      · exact hpage.append _
    · cases hother
  · intro other hother
    refine ⟨page.last, rfl, ?_⟩
    simp only [mem_append, mem_singleton, Paged.closed.injEq] at hother
    rcases hother with hother | rfl
    · have := hafter other hother
      omega
    · omega
  · simp
  · obtain ⟨front, hfront⟩ := h.waiting
    exact ⟨front, by simp [← hfront]; rfl⟩
  · intro other hother
    simp only [mem_append, mem_singleton, Paged.closed.injEq] at hother ⊢
    rcases hother with hother | rfl
    · have := h.left other hother
      tauto
    · simp
  · intro other hother
    simpa using .inl (h.stored other (by simpa using hother))
  · intro other hother
    simpa using h.disk other hother
  · intro checkpoint hcheckpoint
    obtain ⟨hbefore, through, hthrough, hpassed⟩ := h.committed checkpoint hcheckpoint
    have hfirst := h.reading page hreading through hthrough
    refine ⟨?_, page.last, rfl, by omega⟩
    intro other hother
    rcases mem_append.mp hother with hother | hother
    · exact hbefore other hother
    · cases mem_singleton.mp hother
      omega

theorem release_eq (pages : List JournalPage) :
    pages = (Held.release pages).1 ++ (Held.release pages).2 := by
  induction pages with
  | nil => rfl
  | cons page pages ih =>
    unfold Held.release
    split
    · simpa using ih
    · rfl

theorem letGo (h : Covering told journal) {dropped left : List JournalPage}
    (hwaiting : journal.held.waiting = dropped ++ left) :
    Covering (told ++ dropped.map .letGo)
      { journal with held := { journal.held with waiting := left } } where
  ordered := by simpa [closedPages] using h.ordered
  readIn page hpage := (h.readIn page (by simpa [PageOf] using hpage)).append _
  through page hmem := h.through page (by simpa using hmem)
  reading := h.reading
  waiting := by
    have hsuffix := h.waiting
    rw [hwaiting] at hsuffix
    simpa [closedPages, Function.comp_def] using (suffix_append dropped left).trans hsuffix
  left page hmem := by
    have hleft := h.left page (by simpa using hmem)
    rw [hwaiting] at hleft
    simp only [mem_append] at hleft ⊢
    grind
  stored page hmem := by simpa using h.stored page (by simpa using hmem)
  disk page hmem := by simpa using h.disk page hmem
  committed checkpoint hcheckpoint := by
    obtain ⟨hbefore, hthrough⟩ := h.committed checkpoint hcheckpoint
    exact ⟨fun page hmem => hbefore page (by simp [hwaiting, hmem]), hthrough⟩

theorem close (h : Covering told journal) :
    Covering (told ++ journal.close.1) journal.close.2 := by
  unfold Journal.close Held.close
  cases hreading : journal.held.reading with
  | none =>
    have hgo := h.letGo (release_eq journal.held.waiting)
    simpa [hreading] using hgo
  | some page =>
    have hgo := (h.closeReading hreading).letGo (release_eq (journal.held.waiting ++ [page]))
    rwa [append_assoc] at hgo

theorem readInto (h : Covering told journal) (hread : ReadIn told page)
    (hthrough : ∀ through, journal.held.through = some through → through < page.first) :
    Covering (told ++ (journal.held.readInto page).1)
      { journal with held := (journal.held.readInto page).2.1 } := by
  have hpage := h.readPage hread hthrough
  unfold Held.readInto
  dsimp only
  split
  · exact hpage.close
  · simpa using hpage

theorem readIn_ofEvent (hgiven : .given event ∈ told) : ReadIn told (.ofEvent event) where
  le := le_refl _
  read position hclaims := by
    refine ⟨event, hgiven, le_antisymm hclaims.1 hclaims.2, fun hreads => ?_⟩
    simp [JournalPage.ofEvent, hreads]

theorem readIn_extended (h : ReadIn told page) (hgiven : .given event ∈ told)
    (hnext : positionOf event = page.last + 1) : ReadIn told (page.extended event) where
  le := by
    have := h.le
    simp only [JournalPage.extended]
    omega
  read position hclaims := by
    simp only [JournalPage.Claims, JournalPage.extended] at hclaims
    rcases Nat.lt_or_ge page.last position with hlt | hle
    · refine ⟨event, hgiven, by omega, fun hreads => ?_⟩
      simp [JournalPage.extended, hreads]
    · obtain ⟨other, hother, hposition, hkept⟩ := h.read position ⟨hclaims.1, hle⟩
      refine ⟨other, hother, hposition, fun hreads => ?_⟩
      simp [JournalPage.extended, hkept hreads]

theorem read (h : Covering told journal) (event : RecordedEvent) (hgiven : .given event ∈ told) :
    Covering (told ++ (journal.held.read event).1)
      { journal with held := (journal.held.read event).2.1 } := by
  unfold Held.read
  split
  · simpa using h
  · rename_i hnew
    have hnew : ∀ through, journal.held.through = some through → through < positionOf event := by
      simpa [Option.any_eq_true] using hnew
    cases hreading : journal.held.reading with
    | none => exact h.readInto (readIn_ofEvent hgiven) hnew
    | some page =>
      dsimp only
      split
      · simpa using h
      split
      · rename_i hnext
        exact h.readInto (readIn_extended (h.readIn page (.inr hreading)) hgiven hnext)
          (h.reading page hreading)
      · rename_i hbefore hnext
        -- the page is closed, and a new one begins past its last position
        have hclosed := h.close
        have hread : ReadIn (told ++ journal.close.1) (.ofEvent event) :=
          readIn_ofEvent (mem_append_left _ hgiven)
        have hinto := hclosed.readInto hread (by
          intro through hthrough
          simp only [Journal.close, Held.close, hreading, Option.some.injEq] at hthrough
          simp only [JournalPage.ofEvent]
          omega)
        rwa [append_assoc] at hinto

/-! ### Keeping -/

theorem mem_createPage {disk : List JournalPage} {other : JournalPage}
    (h : other ∈ createPage disk page) : other ∈ disk ∨ other = page := by
  unfold createPage at h
  split at h
  · exact .inl h
  · simpa using h

theorem store (h : Covering told journal) (page : JournalPage) (hmem : page ∈ journal.held.waiting) :
    Covering (told ++ [.stored page]) { journal with disk := createPage journal.disk page } where
  ordered := by simpa [closedPages] using h.ordered
  readIn other hother := (h.readIn other (by simpa [PageOf] using hother)).append _
  through other hother := h.through other (by simpa using hother)
  reading := h.reading
  waiting := by simpa [closedPages] using h.waiting
  left other hother := by
    have := h.left other (by simpa using hother)
    grind
  stored other hother := by
    simp only [mem_append, mem_singleton, Paged.stored.injEq] at hother
    rcases hother with hother | rfl
    · simpa using h.stored other hother
    · simpa using h.waiting.mem hmem
  disk other hother := by
    rcases mem_createPage hother with hother | rfl
    · simpa using .inl (h.disk other hother)
    · simp
  committed := h.committed

theorem pop (h : Covering told journal) {rest : List JournalPage}
    (hwaiting : journal.held.waiting = page :: rest) (hstored : .stored page ∈ told)
    (saves : Bool) :
    Covering told { journal with
      held := { journal.held with waiting := rest }
      committed := if saves then some page.last else journal.committed } := by
  have hsuffix := h.waiting
  have hordered := h.ordered.sublist hsuffix.sublist
  rw [hwaiting, pairwise_cons] at hordered
  rw [hwaiting] at hsuffix
  refine ⟨h.ordered, h.readIn, h.through, h.reading, (suffix_cons page rest).trans hsuffix, ?_,
    h.stored, h.disk, ?_⟩
  · intro other hother
    have := h.left other hother
    grind
  · intro checkpoint hcheckpoint
    dsimp only at hcheckpoint
    split at hcheckpoint
    · cases hcheckpoint
      exact ⟨hordered.1, h.through page (by simpa using hsuffix.mem mem_cons_self)⟩
    · obtain ⟨hbefore, hthrough⟩ := h.committed checkpoint hcheckpoint
      exact ⟨fun other hother => hbefore other (by simp [hwaiting, hother]), hthrough⟩

theorem keepPages (n : Nat) {waiting : List JournalPage} {told : List Paged} {journal : Journal}
    (h : Covering told journal) (hwaiting : journal.held.waiting = waiting) :
    let kept := Journal.keepPages answers n waiting journal.disk journal.committed
    Covering (told ++ kept.1) { journal with
      held := { journal.held with waiting := kept.2.1 }
      disk := kept.2.2.1
      committed := kept.2.2.2 } := by
  induction waiting generalizing n told journal with
  | nil => simpa [Journal.keepPages, ← hwaiting] using h
  | cons page rest ih =>
    have hstored := h.store page (by simp [hwaiting])
    unfold Journal.keepPages
    dsimp only
    split
    · simpa [← hwaiting] using h
    · simpa [← hwaiting] using hstored
    · have hpopped := hstored.pop hwaiting (by simp) (answers n).saves
      have hrest := ih (n + 1) hpopped rfl
      simpa [append_assoc] using hrest

section

variable (h : Covering told journal)

include h

theorem keep (answers : Nat → Keeping) :
    Covering (told ++ (journal.keep answers).1) (journal.keep answers).2 :=
  h.keepPages 0 rfl

/-! ### Turns -/

theorem readEvent :
    Covering (told ++ (journal.readEvent event answers).1) (journal.readEvent event answers).2 := by
  have hread := (h.given event).read event (by simp)
  unfold Journal.readEvent
  dsimp only
  split
  · have hkept := hread.keep answers
    simpa [append_assoc] using hkept
  · simpa [append_assoc] using hread

theorem closeAndKeep (due : Bool) (answers : Nat → Keeping) :
    Covering (told ++ (journal.closeAndKeep due answers).1)
      (journal.closeAndKeep due answers).2 := by
  unfold Journal.closeAndKeep
  cases due with
  | false => simpa using h.keep answers
  | true =>
    have hkept := h.close.keep answers
    simpa [append_assoc] using hkept

theorem turn (reason : Turn) :
    Covering (told ++ (journal.turn reason).1) (journal.turn reason).2 := by
  cases reason with
  | event event answers => exact h.readEvent
  | caughtUp answers => exact h.closeAndKeep true answers
  | tick expired answers removed =>
    have hkept := h.closeAndKeep (expired && journal.held.reading.isSome) answers
    refine ⟨hkept.ordered, hkept.readIn, hkept.through, hkept.reading, hkept.waiting, hkept.left,
      hkept.stored, ?_, hkept.committed⟩
    exact fun page hmem => hkept.disk page (mem_of_mem_filter hmem)
  | ended answers =>
    have hkept := h.closeAndKeep true answers
    exact ⟨hkept.ordered, hkept.readIn, hkept.through, hkept.reading, hkept.waiting, hkept.left,
      hkept.stored, hkept.disk, hkept.committed⟩

end

end Covering

/-! ## Runs -/

/-- A run that names a variant, seen twice by the journal while the store refuses a page once. -/
def startedAt (position : UInt64) : RecordedEvent where
  eventType := .runStarted
  data := .object [("said", .string "words"), ("model", .string "m")]
  metadata := ⟨"message", "run:run-1", position, 1, 1, none, "", "", "run-1", none, none, none,
    none, some "v1", none, none, none, none, none, "", 1, ⟨"service", none, "rust", none⟩, 1, 1⟩

end Aiwatcher.Periods
