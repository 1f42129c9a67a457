import Aiwatcher.Bus.Indexed

/-!
# Aiwatcher.Bus.Whole

What an append to the file leaves: the log with the whole batch (`appended_whole`), or, where the
first envelope is refused, the log as it was (`append_refused`).

What the file log keeps over any appends, failed writes and crashes: `whole_or_not_at_all`.  A
batch that is refused past its first envelope leaves its streams' counters behind:
`refused_batch_counts`.
-/

namespace Aiwatcher.Bus

open Library Refusal List RecordCodec

/-! ## Envelopes -/

/-- An envelope that passes its checks. -/
def EventEnvelope.Valid (envelope : EventEnvelope) : Prop := envelope.validate = .ok ()

/-- What is recorded of an envelope can be written on a line, at any position up to `last`. -/
def Serialises (codec : RecordCodec LogRecord) (last : Nat) (ingestedAt : OffsetDateTime)
    (envelope : EventEnvelope) : Prop :=
  ∀ streamPosition globalPosition, 1 ≤ streamPosition → streamPosition ≤ globalPosition →
    globalPosition ≤ last →
      (codec.encode (envelope.record streamPosition globalPosition ingestedAt)).isSome

/-- Every envelope of a batch passes its checks, and can be written behind a log of `head`
records. -/
def Recordable (codec : RecordCodec LogRecord) (head : Nat) (ingestedAt : OffsetDateTime)
    (events : List EventEnvelope) : Prop :=
  ∀ envelope ∈ events, envelope.Valid ∧
    Serialises codec (head + events.length) ingestedAt envelope

/-! ## Batches -/

/-- A batch as it is built behind a log. -/
structure Built (codec : RecordCodec LogRecord) (log : List LogRecord) (batch : Batch) : Prop where
  numbered : Numbered (log ++ batch.recorded)
  counts : Counts batch.streamPositions (log ++ batch.recorded)
  buffer : batch.buffer = codec.text batch.recorded
  relativeOffsets : batch.relativeOffsets =
    (codec.placed 0 batch.recorded).map fun placed => (placed.1.streamName, placed.2)
  encodes : ∀ record ∈ batch.recorded, (codec.encode record).isSome

variable {codec : RecordCodec LogRecord} {log : List LogRecord}

/-- The batch with one record more. -/
def Batch.push (codec : RecordCodec LogRecord) (batch : Batch) (record : LogRecord) : Batch where
  streamPositions := batch.streamPositions.insert record.streamName record.streamPosition
  recorded := batch.recorded ++ [record]
  buffer := batch.buffer ++ codec.line record
  relativeOffsets := batch.relativeOffsets ++ [(record.streamName, batch.buffer.length)]

variable {batch : Batch} {envelope : EventEnvelope}

theorem Built.push (h : Built codec log batch) {record : LogRecord}
    (hencode : (codec.encode record).isSome)
    (hglobal : record.globalPosition = log.length + batch.recorded.length + 1)
    (hstream : record.streamPosition =
      (ofStream record.streamName (log ++ batch.recorded)).length + 1) :
    Built codec log (batch.push codec record) where
  numbered := by
    rw [Batch.push, ← append_assoc]
    exact h.numbered.concat (by rw [hglobal, length_append]) hstream
  counts := by
    rw [Batch.push, ← append_assoc, hstream]
    exact h.counts.concat record
  buffer := by simp [Batch.push, h.buffer]
  relativeOffsets := by
    simp [Batch.push, h.relativeOffsets, h.buffer, placed]
  encodes := by
    simpa [Batch.push, or_imp, forall_and] using ⟨h.encodes, hencode⟩

theorem promote_ok (h : Built codec log batch) {ingestedAt : OffsetDateTime} {last : Nat}
    (hvalid : envelope.Valid) (hserialises : Serialises codec last ingestedAt envelope)
    (hlast : log.length + batch.recorded.length < last) :
    ∃ batch', (promote codec log.length ingestedAt envelope).run batch = .ok () batch' ∧
      Built codec log batch' ∧ batch'.recorded.length = batch.recorded.length + 1 := by
  have hcount := h.counts envelope.streamName
  have hless : (ofStream envelope.streamName (log ++ batch.recorded)).length ≤
      log.length + batch.recorded.length := by
    rw [← length_append]
    exact length_filter_le _ _
  have hencode := hserialises (batch.streamPositions[envelope.streamName]?.getD 0 + 1)
    (log.length + batch.recorded.length + 1) (by omega) (by omega) (by omega)
  obtain ⟨line, hline⟩ := Option.isSome_iff_exists.mp hencode
  refine ⟨batch.push codec (envelope.record (batch.streamPositions[envelope.streamName]?.getD 0 + 1)
    (log.length + batch.recorded.length + 1) ingestedAt), ?_, ?_, by simp [Batch.push]⟩
  · unfold EventEnvelope.Valid at hvalid
    simp only [promote, hvalid, Except.mapError]
    simp [MonadExcept.ofExcept, okOr, hline, Batch.push, RecordCodec.line]
    exact ⟨rfl, rfl⟩
  · apply h.push hencode rfl
    rw [← h.counts]
    rfl

theorem promote_all (h : Built codec log batch) {events : List EventEnvelope}
    {ingestedAt : OffsetDateTime} {last : Nat} (hevents : ∀ envelope ∈ events, envelope.Valid ∧
      Serialises codec last ingestedAt envelope)
    (hlast : log.length + batch.recorded.length + events.length ≤ last) :
    ∃ batch', (events.forM (promote codec log.length ingestedAt)).run batch = .ok () batch' ∧
      Built codec log batch' := by
  induction events generalizing batch with
  | nil => exact ⟨batch, rfl, h⟩
  | cons envelope events ih =>
    rw [forall_mem_cons] at hevents
    rw [length_cons] at hlast
    obtain ⟨next, hnext, hbuilt, hlength⟩ :=
      promote_ok h hevents.1.1 hevents.1.2 (by omega)
    obtain ⟨batch', hrun, hbuilt'⟩ := ih hbuilt hevents.2 (by omega)
    exact ⟨batch', bind_ok_iff.mpr ⟨(), next, hnext, hrun⟩, hbuilt'⟩

theorem promote_refused {events : List EventEnvelope} {ingestedAt : OffsetDateTime}
    {basePosition : Nat} (h : ¬ envelope.Valid) :
    ∃ error, ((envelope :: events).forM (promote codec basePosition ingestedAt)).run batch =
      .error error batch := by
  unfold EventEnvelope.Valid at h
  cases hvalidate : envelope.validate with
  | ok u => exact absurd hvalidate h
  | error error =>
    have hfirst : (promote codec basePosition ingestedAt envelope).run batch =
        .error (.invalid error) batch := by
      simp only [promote, hvalidate, Except.mapError]
      simp [MonadExcept.ofExcept]
    refine ⟨.invalid error, ?_⟩
    rw [forM_eq_forM, forM_cons, EStateM.run_bind, hfirst]

/-! ## Appends -/

theorem places_appended {writer : Writer} (h : Places codec writer log) (recorded : List LogRecord) :
    Places codec ((codec.placed 0 recorded).foldl (fun writer placed =>
      writer.place placed.1.streamName ((codec.text log).length + placed.2)) writer)
      (log ++ recorded) := by
  have hmore : ∀ (done more : List LogRecord) (writer : Writer),
      Places codec writer (log ++ done) →
        Places codec ((codec.placed (codec.text done).length more).foldl (fun writer placed =>
          writer.place placed.1.streamName ((codec.text log).length + placed.2)) writer)
          (log ++ (done ++ more)) := by
    intro done more
    induction more generalizing done with
    | nil => simp [placed]
    | cons record more ih =>
      intro writer hdone
      have hrecord := hdone.concat record
      rw [text_append, length_append, append_assoc] at hrecord
      have hrest := ih (done ++ [record]) _ hrecord
      rw [text_append, length_append, text_cons,
        text_nil, append_nil, append_assoc, singleton_append] at hrest
      exact hrest
  simpa using hmore [] recorded writer (by simpa using h)

theorem streamPositions_place {α : Type} (stream : α → String) (offset : α → Nat)
    (placed : List α) (writer : Writer) :
    (placed.foldl (fun writer placed => writer.place (stream placed) (offset placed))
      writer).streamPositions = writer.streamPositions := by
  induction placed generalizing writer with
  | nil => rfl
  | cons _ placed ih => exact ih _

variable {wal : FileWal} {events : List EventEnvelope} {ingestedAt : OffsetDateTime}

/-- **A whole batch**: the log grows by what is answered. -/
theorem appended_whole (h : Indexed codec wal log)
    (hevents : Recordable codec log.length ingestedAt events) :
    ∃ result wal', wal.append codec events ingestedAt .whole = (.ok result, wal') ∧
      Indexed codec wal' (log ++ result.recorded) := by
  obtain ⟨writer, hwriter, hplaces, hcounts⟩ := h.writer
  have hnew : Built codec log { streamPositions := writer.streamPositions } :=
    ⟨by simpa using h.numbered, by simpa using hcounts, rfl, rfl, by simp⟩
  obtain ⟨batch, hrun, hbuilt⟩ := promote_all hnew hevents (by simp)
  have hlength : writer.offsets.length = log.length := by simp [hplaces.offsets]
  have hcounted : Places codec { writer with streamPositions := batch.streamPositions } log :=
    ⟨hplaces.offsets, hplaces.streamOffsets⟩
  have hgrown := places_appended hcounted batch.recorded
  have hplaced : batch.relativeOffsets.foldl (fun writer relative =>
      writer.place relative.1 (wal.file.length + relative.2))
        { writer with streamPositions := batch.streamPositions } =
      (codec.placed 0 batch.recorded).foldl (fun writer placed =>
        writer.place placed.1.streamName ((codec.text log).length + placed.2))
          { writer with streamPositions := batch.streamPositions } := by
    rw [hbuilt.relativeOffsets, foldl_map, h.file]
  refine ⟨.of batch.recorded, ⟨wal.file ++ batch.buffer, some _⟩, ?_, ?_, ?_, hbuilt.numbered, _,
    rfl, hgrown, ?_⟩
  · unfold FileWal.append
    rw [hwriter]
    dsimp only
    rw [hlength, hrun]
    dsimp only
    rw [hplaced]
  · rw [text_append, h.file, hbuilt.buffer]
    rfl
  · intro record hmem
    exact (mem_append.mp hmem).elim (h.encodes record) (hbuilt.encodes record)
  · rw [streamPositions_place]
    exact hbuilt.counts

/-- **A refused batch**: a log whose first envelope is refused stays. -/
theorem append_refused (h : ¬ envelope.Valid) (write : Write) :
    ∃ error, wal.append codec (envelope :: events) ingestedAt write = (.error error, wal) := by
  obtain ⟨file, writer⟩ := wal
  unfold FileWal.append
  cases writer with
  | none => exact ⟨.io, rfl⟩
  | some writer =>
    obtain ⟨error, hrun⟩ := promote_refused h
    refine ⟨error, ?_⟩
    dsimp only
    rw [hrun]

theorem append_nil_failed (landed : Nat) :
    wal.append codec [] ingestedAt (.failed landed) = (.error .io, wal) := by
  obtain ⟨file, writer⟩ := wal
  unfold FileWal.append
  cases writer with
  | none => rfl
  | some writer => simp

inductive WalAct where
  | append (events : List EventEnvelope) (ingestedAt : OffsetDateTime) (write : Write)
  /-- The process is gone, the file is cut at a byte, and the log is opened again. -/
  | crash (cut : Nat)

inductive WalAnswer where
  | appended (result : AppendResult)
  | refused (error : BusError)
  | opened
  | unopened (error : BusError)

/-- The log, with the batches that were answered and stand whole in what no crash cut. -/
structure Journal where
  wal : FileWal := {}
  batches : List (List LogRecord) := []

namespace Journal

variable (codec : RecordCodec LogRecord)

def perform (journal : Journal) : WalAct → WalAnswer × Journal
  | .append events ingestedAt write =>
    match journal.wal.append codec events ingestedAt write with
    | (.ok result, wal) =>
      (.appended result, { wal, batches := journal.batches ++ [result.recorded] })
    | (.error error, wal) => (.refused error, { journal with wal })
  | .crash cut =>
    let batches := codec.fitting cut journal.batches
    match FileWal.open codec (journal.wal.file.take cut) with
    | .ok wal => (.opened, { wal, batches })
    | .error error =>
      (.unopened error, { wal := ⟨journal.wal.file.take cut, none⟩, batches })

/-- What a cut leaves behind the batches that fit whole. -/
def rest (journal : Journal) (cut : Nat) : LineBytes :=
  (journal.wal.file.take cut).drop (codec.text (codec.fitting cut journal.batches).flatten).length

end Journal

def journaling (codec : RecordCodec LogRecord) : Machine Journal WalAct WalAnswer where
  step journal act := some ([(journal.perform codec act).1], (journal.perform codec act).2)

/-- What a step must leave: the whole batches that are there, numbered without holes, and nothing
of what was refused. -/
structure WalLaw (codec : RecordCodec LogRecord) (st : Step Journal WalAct WalAnswer) : Prop where
  whole : Holds codec st.after.wal st.after.batches.flatten
  refused : ∀ error, .refused error ∈ st.out → st.after = st.before
  opens : ∀ error, .unopened error ∉ st.out

/-- Where a step leaves it: a batch is empty, or refused for its first envelope, or recorded and
written whole; and a crash cuts no batch between two records and no character. -/
def Spared (codec : RecordCodec LogRecord) (before : Journal) : WalAct → Prop
  | .append events ingestedAt write =>
    events = [] ∨ (∃ first ∈ events.head?, ¬ first.Valid) ∨
      (Recordable codec before.wal.head ingestedAt events ∧ write = .whole)
  | .crash cut => lineBreak ∉ before.rest codec cut ∧ isText (before.rest codec cut) = true

variable {codec : RecordCodec LogRecord}

variable {journal : Journal}

theorem perform_whole (h : Indexed codec journal.wal journal.batches.flatten)
    {events : List EventEnvelope} {ingestedAt : OffsetDateTime}
    (hevents : Recordable codec journal.batches.flatten.length ingestedAt events) :
    ∃ result, (journal.perform codec (.append events ingestedAt .whole)).1 = .appended result ∧
      Indexed codec (journal.perform codec (.append events ingestedAt .whole)).2.wal
        (journal.perform codec (.append events ingestedAt .whole)).2.batches.flatten := by
  obtain ⟨result, wal, happend, hindexed⟩ := appended_whole h hevents
  refine ⟨result, ?_, ?_⟩
  · simp only [Journal.perform, happend]
  · simp only [Journal.perform, happend]
    simpa using hindexed

/-- A crash that leaves whole batches and a front of a record leaves the batches. -/
theorem perform_crash (hcodec : codec.Faithful)
    (h : Indexed codec journal.wal journal.batches.flatten) {cut : Nat}
    (hspared : Spared codec journal (.crash cut)) :
    (journal.perform codec (.crash cut)).1 = .opened ∧
      Indexed codec (journal.perform codec (.crash cut)).2.wal
        (journal.perform codec (.crash cut)).2.batches.flatten := by
  have hfront : (codec.fitting cut journal.batches).flatten <+: journal.batches.flatten :=
    (RecordCodec.fitting_prefix cut journal.batches).flatten
  obtain ⟨hbreak, htext⟩ := hspared
  rw [Journal.rest, h.file] at hbreak htext
  obtain ⟨wal, hopen, hindexed⟩ := open_text hcodec (h.numbered.front hfront)
    (fun record hmem => h.encodes record (hfront.subset hmem)) hbreak htext
  rw [← take_text, ← h.file] at hopen
  refine ⟨?_, ?_⟩
  · simp only [Journal.perform, hopen]
  · simpa only [Journal.perform, hopen] using hindexed

/-- **Step**: what a spared step leaves of a log that is whole. -/
theorem perform_spared (hcodec : codec.Faithful)
    (h : Indexed codec journal.wal journal.batches.flatten) {act : WalAct}
    (hspared : Spared codec journal act) :
    Indexed codec (journal.perform codec act).2.wal (journal.perform codec act).2.batches.flatten ∧
      (∀ error, (journal.perform codec act).1 = .refused error →
        (journal.perform codec act).2 = journal) ∧
      ∀ error, (journal.perform codec act).1 ≠ .unopened error := by
  -- an append that is refused and leaves the log leaves all
  have hrefused : ∀ {events ingestedAt write error},
      journal.wal.append codec events ingestedAt write = (.error error, journal.wal) →
        journal.perform codec (.append events ingestedAt write) = (.refused error, journal) := by
    intro events ingestedAt write error happend
    simp only [Journal.perform, happend]
  have hwhole : ∀ {events ingestedAt},
      Recordable codec journal.batches.flatten.length ingestedAt events →
        Indexed codec (journal.perform codec (.append events ingestedAt .whole)).2.wal
          (journal.perform codec (.append events ingestedAt .whole)).2.batches.flatten ∧
        (∀ error, (journal.perform codec (.append events ingestedAt .whole)).1 = .refused error →
          (journal.perform codec (.append events ingestedAt .whole)).2 = journal) ∧
        ∀ error, (journal.perform codec (.append events ingestedAt .whole)).1 ≠ .unopened error := by
    intro events ingestedAt hevents
    obtain ⟨result, hanswer, hindexed⟩ := perform_whole h hevents
    rw [hanswer]
    exact ⟨hindexed, by simp, by simp⟩
  cases act with
  | append events ingestedAt write =>
    rcases hspared with rfl | ⟨first, hfirst, hinvalid⟩ | ⟨hevents, rfl⟩
    · cases write with
      | whole => exact hwhole (by simp [Recordable])
      | failed landed =>
        rw [hrefused (append_nil_failed landed)]
        exact ⟨h, by simp, by simp⟩
    · obtain ⟨rest, rfl⟩ := List.head?_eq_some_iff.mp hfirst
      obtain ⟨error, happend⟩ := append_refused hinvalid write
      rw [hrefused happend]
      exact ⟨h, by simp, by simp⟩
    · rw [(h.holds hcodec).head] at hevents
      exact hwhole hevents
  | crash cut =>
    obtain ⟨hanswer, hindexed⟩ := perform_crash hcodec h hspared
    rw [hanswer]
    exact ⟨hindexed, by simp, by simp⟩

/-- **All or nothing**: in any run of appends and crashes whose steps are all spared, the log is
the batches that stand whole, numbered and counted without holes, and what is refused changes
nothing. -/
theorem whole_or_not_at_all (codec : RecordCodec LogRecord) (hcodec : codec.Faithful)
    (acts : List WalAct)
    (hspared : ∀ st ∈ (journaling codec).run {} acts, Spared codec st.before st.input) :
    ∀ st ∈ (journaling codec).run {} acts, WalLaw codec st := by
  have hnew : Indexed codec ({} : Journal).wal ({} : Journal).batches.flatten :=
    ⟨rfl, by simp, Numbered.nil, {}, rfl, Places.nil, Counts.nil⟩
  intro st hst
  have hindexed := @Machine.inv_of_mem_run _ _ _ (journaling codec)
    (fun journal => Indexed codec journal.wal journal.batches.flatten) (Spared codec)
    (fun journal act out after h hadmits hstep => by
      cases hstep
      exact (perform_spared hcodec h hadmits).1) {} acts hnew hspared st hst
  have hlaw := perform_spared hcodec hindexed.1 (hspared st hst)
  have hstep := Machine.step_of_mem_run hst
  simp only [journaling, Option.some.injEq, Prod.mk.injEq] at hstep
  obtain ⟨hout, hafter⟩ := hstep
  rw [hafter] at hlaw
  refine ⟨hindexed.2.holds hcodec, fun error hmem => ?_, fun error hmem => ?_⟩
  · rw [← hout, List.mem_singleton] at hmem
    exact hlaw.2.1 error hmem.symm
  · rw [← hout, List.mem_singleton] at hmem
    exact hlaw.2.2 error hmem.symm

/-! ## One run's start -/

def started : EventEnvelope where
  eventId := some "m-1"
  eventType := .runStarted
  occurredAt := 0
  runId := "run-1"
  source := ⟨"service", none, "rust", none⟩

/-- The JSON of a run's start, a second after its time. -/
def startedText (record : LogRecord) : String :=
  "\x7b\"kind\":\"Event\",\"event_type\":\"run.started\",\"data\":null,\"metadata\":\x7b" ++
  "\"message_id\":\"m-1\",\"stream_name\":\"run:run-1\",\"stream_position\":" ++
  record.streamPosition.repr ++ ",\"global_position\":" ++ record.globalPosition.repr ++
  ",\"checkpoint\":\"" ++ padded record.checkpoint ++
  "\",\"trace_id\":\"0000000000000000000000000000000a\",\"span_id\":\"000000000000000b\"," ++
  "\"correlation_id\":\"m-1\",\"causation_id\":\"m-1\",\"run_id\":\"run-1\"," ++
  "\"span_key\":\"run\",\"schema_version\":1," ++
  "\"source\":\x7b\"service\":\"service\",\"sdk\":\"rust\"\x7d," ++
  "\"occurred_at\":\"1970-01-01T00:00:00Z\",\"ingested_at\":\"1970-01-01T00:00:01Z\"\x7d\x7d"

def second : OffsetDateTime := 1000000000

/-- The start at each position of a log of three. -/
def startedRecords : List LogRecord :=
  [started.record 1 1 second, started.record 1 2 second, started.record 2 2 second,
    started.record 1 3 second, started.record 2 3 second, started.record 3 3 second]

/-- What is written of the start, and read back. -/
def startedJson : RecordCodec LogRecord where
  encode record :=
    if record ∈ startedRecords then some (startedText record).toUTF8.data.toList else none
  decode line := startedRecords.find? fun record => (startedText record).toUTF8.data.toList = line

theorem faithful_startedJson : startedJson.Faithful := by
  have hencode : ∀ record line, startedJson.encode record = some line →
      record ∈ startedRecords ∧ (startedText record).toUTF8.data.toList = line := by
    intro record line h
    simp only [startedJson] at h
    split at h
    · rename_i hmem
      exact ⟨hmem, Option.some.inj h⟩
    · cases h
  have hall : ∀ record ∈ startedRecords,
      startedJson.decode (startedText record).toUTF8.data.toList = some record ∧
        lineBreak ∉ (startedText record).toUTF8.data.toList := by decide +kernel
  refine ⟨fun record line h => ?_, fun record line h => ?_, fun record line h => ?_⟩
  · obtain ⟨hmem, rfl⟩ := hencode record line h
    exact (hall record hmem).1
  · obtain ⟨hmem, rfl⟩ := hencode record line h
    exact (hall record hmem).2
  · obtain ⟨hmem, rfl⟩ := hencode record line h
    exact isText_toUTF8 _

theorem recordable_started {head : Nat} {events : List EventEnvelope}
    (hlast : head + events.length ≤ 3) (h : ∀ envelope ∈ events, envelope = started) :
    Recordable startedJson head second events := by
  have hencodes : ∀ globalPosition ≤ 3, ∀ streamPosition ≤ globalPosition, 1 ≤ streamPosition →
      (startedJson.encode (started.record streamPosition globalPosition second)).isSome := by
    decide +kernel
  intro envelope hmem
  rw [h envelope hmem]
  exact ⟨rfl, fun streamPosition globalPosition hone hle hlast' =>
    hencodes globalPosition (by omega) streamPosition hle hone⟩

def twoBatches : List WalAct :=
  [.append [started] second .whole, .append [started, started] second .whole]

/-- Two batches, the second cut in its first record. -/
def cutShort : List WalAct := twoBatches ++ [.crash 496]

theorem whole_or_not_at_all_cutShort :
    startedJson.fitting 496 ((journaling startedJson).last {} twoBatches).batches =
        [[started.record 1 1 second]] ∧
      ∀ st ∈ (journaling startedJson).run {} cutShort, WalLaw startedJson st := by
  refine ⟨by decide +kernel, whole_or_not_at_all startedJson faithful_startedJson cutShort ?_⟩
  simp only [cutShort, twoBatches, List.cons_append, List.nil_append, Machine.run, journaling,
    List.forall_mem_cons]
  refine ⟨.inr (.inr ⟨recordable_started ?_ ?_, rfl⟩), .inr (.inr ⟨recordable_started ?_ ?_, rfl⟩),
    ⟨?_, ?_⟩, by simp⟩
  · decide +kernel
  · simp
  · decide +kernel
  · simp
  · decide +kernel
  · decide +kernel

/-- A valid envelope before one that names no run. -/
theorem refused_batch_counts : ¬ ∀ st ∈ (journaling startedJson).run {}
    [.append [started, { started with runId := "" }] second .whole], WalLaw startedJson st := by
  intro h
  have hlaw := h ⟨{}, .append [started, { started with runId := "" }] second .whole, _, _⟩ (by
    simp only [Machine.run, journaling]
    exact List.mem_singleton_self _)
  have hnext := hlaw.whole.next "run:run-1"
  exact absurd hnext (by decide +kernel)

end Aiwatcher.Bus
