import Aiwatcher.Periods.Fold

/-!
# Aiwatcher.Periods.Journal

The journal of what the period fold reads (`journal.rs`): each stretch of positions read is a
page, a page is kept before the checkpoint passes it, and pages the store refuses for too long
are let go.

The log numbers every event one after the last.  How long a page has been open, what the store
and the checkpointer answer and which pages retention removes are arguments; how far behind the
log the journal is, which it only reports, is left out.
-/

namespace Aiwatcher.Periods

open Library

/-! ## What a page keeps -/

/-- What the fold reads of an event's payload. -/
def readKeys : List String :=
  ["evaluation_id", "runs", "model", "duration_ms", "prompt_tokens", "input_tokens",
    "completion_tokens", "output_tokens", "cached_tokens"]

/-- Whether a journal keeps an event: `PeriodFold::reads`. -/
def reads (event : RecordedEvent) : Bool :=
  event.metadata.variantId.isSome &&
    match event.eventType.subject, event.eventType.phase with
    | .run, _ | .client, _ => true
    | .execution, some (.ended _) => true
    | .llm, some .start | .llm, some (.ended _) => true
    | .llm, _ => event.eventType.asStr == "llm.first_token"
    | _, _ => false

/-- An event with only what the fold reads of its payload: `PeriodFold::kept`. -/
def kept (event : RecordedEvent) : RecordedEvent :=
  match event.data with
  | .object fields =>
    { event with data := .object (fields.filter fun field => readKeys.contains field.1) }
  | _ => event

/-- Where an event is in the log. -/
def positionOf (event : RecordedEvent) : Nat := event.metadata.globalPosition.toNat

/-- When an event was, on the log's clock. -/
def boundOf (event : RecordedEvent) : Int :=
  unixTimestamp (min event.metadata.occurredAt event.metadata.ingestedAt)

namespace JournalPage

/-- The positions a page covers. -/
def Claims (page : JournalPage) (position : Nat) : Prop :=
  page.first ≤ position ∧ position ≤ page.last

instance (page : JournalPage) (position : Nat) : Decidable (page.Claims position) :=
  inferInstanceAs (Decidable (_ ∧ _))

def positions (page : JournalPage) : Nat := page.last - page.first + 1

/-- Pages are filed under their first and last positions and their clock. -/
def sameKey (page other : JournalPage) : Bool :=
  page.first == other.first && page.last == other.last && page.clock == other.clock

/-- A page of one event. -/
def ofEvent (event : RecordedEvent) : JournalPage :=
  ⟨positionOf event, positionOf event, boundOf event, boundOf event,
    if reads event then [kept event] else []⟩

/-- One more position read on a page. -/
def extended (page : JournalPage) (event : RecordedEvent) : JournalPage :=
  { page with
    last := positionOf event
    clock := max page.clock (boundOf event)
    events := page.events ++ if reads event then [kept event] else [] }

end JournalPage

/-! ## State -/

/-- Positions one page holds at most. -/
def pagePositions : Nat := 4096

/-- Positions pages may hold while the store refuses them. -/
def mostHeld : Nat := 64 * pagePositions

/-- What has been read and is not yet kept. -/
structure Held where
  /-- Pages the store has not taken, in order. -/
  waiting : List JournalPage := []
  /-- The page still being read. -/
  reading : Option JournalPage := none
  /-- The last position a kept or waiting page holds. -/
  through : Option Nat := none

/-- The journal, the pages the store holds and the checkpoint it has committed. -/
structure Journal where
  held : Held
  disk : List JournalPage := []
  committed : Option Nat := none
  running : Bool := true

/-- What becomes of the pages, told from outside. -/
inductive Paged where
  /-- an event was given to the journal -/
  | given (event : RecordedEvent)
  /-- a page was closed, and waits to be kept -/
  | closed (page : JournalPage)
  /-- the store holds a page -/
  | stored (page : JournalPage)
  /-- a page the store refused was let go -/
  | letGo (page : JournalPage)

/-- What the store answers to a page: `lost` is a page that is stored and said to have failed. -/
inductive PageAnswer where
  | written
  | refused
  | lost
  deriving DecidableEq, Repr

/-- What keeping one page is answered. -/
structure Keeping where
  write : PageAnswer
  /-- whether the checkpointer saves -/
  saves : Bool
  deriving DecidableEq, Repr

/-- What the journal is woken by, and what keeping its pages is answered, page by page. -/
inductive Turn where
  | event (event : RecordedEvent) (answers : Nat → Keeping)
  | caughtUp (answers : Nat → Keeping)
  | tick (expired : Bool) (answers : Nat → Keeping) (removed : Option (JournalPage → Bool))
  /-- the log's end, or a shutdown -/
  | ended (answers : Nat → Keeping)

/-! ## Reading -/

namespace Held

/-- Positions that waiting pages hold. -/
def positions (pages : List JournalPage) : Nat := (pages.map JournalPage.positions).sum

/-- The oldest pages go until the others hold no more positions than they may. -/
def release : List JournalPage → List JournalPage × List JournalPage
  | [] => ([], [])
  | page :: rest =>
    if mostHeld < positions (page :: rest) then
      let (dropped, left) := release rest
      (page :: dropped, left)
    else ([], page :: rest)

/-- Stop reading into the open page; it waits to be kept. -/
def close (held : Held) : List Paged × Held :=
  let (out, held) : List Paged × Held := match held.reading with
    | some page => ([.closed page], ⟨held.waiting ++ [page], none, some page.last⟩)
    | none => ([], held)
  let (dropped, left) := release held.waiting
  (out ++ dropped.map .letGo, { held with waiting := left })

/-- Read into a page, which closes when it is full. -/
def readInto (held : Held) (page : JournalPage) : List Paged × Held × Bool :=
  let held := { held with reading := some page }
  if pagePositions ≤ page.positions then
    let (out, held) := held.close
    (out, held, true)
  else ([], held, false)

/-- One position read: on the page being read when it follows its last, on a new one when it does
not.  Whether a page closed and is waiting to be kept. -/
def read (held : Held) (event : RecordedEvent) : List Paged × Held × Bool :=
  if held.through.any fun through => positionOf event ≤ through then ([], held, false)
  else
    match held.reading with
    | none => held.readInto (.ofEvent event)
    | some page =>
      if positionOf event ≤ page.last then ([], held, false)
      else if positionOf event = page.last + 1 then held.readInto (page.extended event)
      else
        let (closed, held) := held.close
        let (out, held, _) := held.readInto (.ofEvent event)
        (closed ++ out, held, true)

end Held

/-! ## Keeping -/

/-- A page the store is given: one it holds under that key already stays. -/
def createPage (disk : List JournalPage) (page : JournalPage) : List JournalPage :=
  if disk.any page.sameKey then disk else disk ++ [page]

namespace Journal

/-- Keep the waiting pages in order, committing through each one kept, and stop at the first the
store refuses. -/
def keepPages (answers : Nat → Keeping) :
    Nat → List JournalPage → List JournalPage → Option Nat →
      List Paged × List JournalPage × List JournalPage × Option Nat
  | _, [], disk, committed => ([], [], disk, committed)
  | n, page :: rest, disk, committed =>
    match (answers n).write with
    | .refused => ([], page :: rest, disk, committed)
    | .lost => ([.stored page], page :: rest, createPage disk page, committed)
    | .written =>
      let committed := if (answers n).saves then some page.last else committed
      let (out, kept) := keepPages answers (n + 1) rest (createPage disk page) committed
      (.stored page :: out, kept)

def keep (journal : Journal) (answers : Nat → Keeping) : List Paged × Journal :=
  let (out, waiting, disk, committed) :=
    keepPages answers 0 journal.held.waiting journal.disk journal.committed
  (out, { journal with held := { journal.held with waiting }, disk, committed })

/-- Close the page being read. -/
def close (journal : Journal) : List Paged × Journal :=
  let (out, held) := journal.held.close
  (out, { journal with held })

/-- Read one event, and keep what waits if a page closed. -/
def readEvent (journal : Journal) (event : RecordedEvent) (answers : Nat → Keeping) :
    List Paged × Journal :=
  let (out, held, closed) := journal.held.read event
  let journal := { journal with held }
  if closed then
    let (stored, journal) := journal.keep answers
    (.given event :: out ++ stored, journal)
  else (.given event :: out, journal)

/-- Close the page being read if it is time to, and keep what waits. -/
def closeAndKeep (journal : Journal) (due : Bool) (answers : Nat → Keeping) :
    List Paged × Journal :=
  let (out, journal) := if due then journal.close else ([], journal)
  let (stored, journal) := journal.keep answers
  (out ++ stored, journal)

/-- One turn of the journal's loop. -/
def turn (journal : Journal) : Turn → List Paged × Journal
  | .event event answers => journal.readEvent event answers
  | .caughtUp answers => journal.closeAndKeep true answers
  | .tick expired answers removed =>
    let (out, journal) := journal.closeAndKeep (expired && journal.held.reading.isSome) answers
    (out, { journal with disk := journal.disk.filter fun page => !removed.any (· page) })
  | .ended answers =>
    let (out, journal) := journal.closeAndKeep true answers
    (out, { journal with running := false })

/-- A journal that has committed so far, and whose pages are all its own. -/
def resumed (committed : Option Nat) : Journal where
  held := { through := committed }
  committed

end Journal

/-- The journal as a machine that tells what becomes of its pages. -/
def journaling : Machine Journal Turn Paged where
  step journal turn := if journal.running then some (journal.turn turn) else none

end Aiwatcher.Periods
