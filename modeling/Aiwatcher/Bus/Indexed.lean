import Aiwatcher.Bus.Wal

/-!
# Aiwatcher.Bus.Indexed

A file that is the lines of numbered records, under an index that says where each starts
(`Indexed`): what reading it gives (`Indexed.holds`), and that opening it builds that index
(`open_text`).
-/

namespace Aiwatcher.Bus

open Library List Option RecordCodec

/-! ## Indexes -/

/-- Where the records of one stream start. -/
def placedOf (codec : RecordCodec LogRecord) (stream : String) (log : List LogRecord) :
    List (LogRecord × Nat) :=
  (codec.placed 0 log).filter (·.1.streamName = stream)

/-- The offsets are where the records start. -/
structure Places (codec : RecordCodec LogRecord) (writer : Writer) (log : List LogRecord) :
    Prop where
  offsets : writer.offsets = (codec.placed 0 log).map Prod.snd
  streamOffsets : ∀ stream : String,
    writer.streamOffsets[stream]?.getD [] = (placedOf codec stream log).map Prod.snd

/-- A counter for each stream says how many of its records there are. -/
def Counts (streamPositions : BTreeMap String Nat) (log : List LogRecord) : Prop :=
  ∀ stream : String, streamPositions[stream]?.getD 0 = (ofStream stream log).length

/-- A file of numbered records, and the index of them. -/
structure Indexed (codec : RecordCodec LogRecord) (wal : FileWal) (log : List LogRecord) :
    Prop where
  file : wal.file = codec.text log
  encodes : ∀ record ∈ log, (codec.encode record).isSome
  numbered : Numbered log
  writer : ∃ writer, wal.writer = some writer ∧ Places codec writer log ∧
    Counts writer.streamPositions log

variable {codec : RecordCodec LogRecord} {log : List LogRecord}

theorem map_fst_placedOf (stream : String) (log : List LogRecord) :
    (placedOf codec stream log).map Prod.fst = ofStream stream log := by
  have hfilter : ((codec.placed 0 log).map Prod.fst).filter (·.streamName = stream) =
      (placedOf codec stream log).map Prod.fst := filter_map
  rw [← hfilter, map_fst_placed, ofStream]

theorem placedOf_append (stream : String) (log more : List LogRecord) :
    placedOf codec stream (log ++ more) = placedOf codec stream log ++
      (codec.placed (codec.text log).length more).filter (·.1.streamName = stream) := by
  simp [placedOf]

theorem Places.nil : Places codec {} [] := ⟨rfl, fun stream => by simp [placedOf, placed]⟩

theorem Places.concat {writer : Writer} (h : Places codec writer log) (record : LogRecord) :
    Places codec (writer.place record.streamName (codec.text log).length) (log ++ [record]) where
  offsets := by
    simp [Writer.place, h.offsets, placed]
  streamOffsets stream := by
    rw [placedOf_append, map_append, ← h.streamOffsets]
    simp only [Writer.place, placed, Table.getElem?_insert]
    by_cases heq : record.streamName = stream
    · subst heq
      simp
    · simp [heq]

theorem Counts.nil : Counts ∅ [] := fun stream => by simp [ofStream]

theorem Counts.concat {positions : BTreeMap String Nat} (h : Counts positions log)
    (record : LogRecord) :
    Counts (positions.insert record.streamName ((ofStream record.streamName log).length + 1))
      (log ++ [record]) := by
  intro stream
  rw [ofStream_append, length_append, Table.getElem?_insert]
  by_cases heq : record.streamName = stream
  · subst heq
    simp [ofStream]
  · rw [if_neg heq, h stream]
    simp [ofStream, heq]

/-! ## Reading -/

/-- What can be read of an intact log. -/
structure Holds (codec : RecordCodec LogRecord) (wal : FileWal) (log : List LogRecord) : Prop where
  numbered : Numbered log
  read : ∀ after limit, wal.readAfter codec after limit = .ok ((log.drop after).take limit)
  readStream : ∀ stream, wal.readStream codec stream = .ok (ofStream stream log)
  page : ∀ stream after limit, wal.readStreamPage codec stream after limit =
    .ok (.slice (ofStream stream log) after limit)
  head : wal.head = log.length
  next : ∀ stream : String, (wal.writer.bind (·.streamPositions[stream]?)).getD 0 =
    (ofStream stream log).length

theorem readLines_eq (hcodec : codec.Faithful) {records : List LogRecord}
    (h : ∀ record ∈ records, (codec.encode record).isSome) (place : Nat → Place) (limit : Nat) :
    FileWal.readLines codec place limit (records.filterMap codec.encode) [] =
      .ok (records.take limit) := by
  have htext : isText [] = true := by decide
  induction records generalizing limit place with
  | nil => cases limit <;> simp [FileWal.readLines, htext]
  | cons record records ih =>
    rw [forall_mem_cons] at h
    obtain ⟨line, hline⟩ := isSome_iff_exists.mp h.1
    rw [filterMap_cons_some hline]
    cases limit with
    | zero => simp [FileWal.readLines]
    | succ limit =>
      rw [FileWal.readLines, if_pos (hcodec.text record line hline),
        hcodec.decode record line hline, ih h.2]
      rfl

theorem readAtOffsets_eq (hcodec : codec.Faithful) {wal : FileWal}
    (hfile : wal.file = codec.text log) (h : ∀ record ∈ log, (codec.encode record).isSome)
    {placed : List (LogRecord × Nat)} (hplaced : ∀ p ∈ placed, p ∈ codec.placed 0 log) :
    wal.readAtOffsets codec (placed.map Prod.snd) = .ok (placed.map Prod.fst) := by
  induction placed with
  | nil => rfl
  | cons p placed ih =>
    obtain ⟨record, offset⟩ := p
    rw [forall_mem_cons] at hplaced
    obtain ⟨i, hi⟩ := getElem?_of_mem hplaced.1
    rw [getElem?_placed] at hi
    obtain ⟨record', hrecord, heq⟩ := map_eq_some_iff.mp hi
    cases heq
    obtain ⟨line, hline⟩ := isSome_iff_exists.mp
      (h record (List.mem_of_getElem? hrecord))
    -- what stands behind the offset begins with the record's line
    have hdrop : log.drop i = record :: log.drop (i + 1) := by
      rw [List.getElem?_eq_some_iff] at hrecord
      obtain ⟨hlt, hget⟩ := hrecord
      rw [← hget, drop_eq_getElem_cons hlt]
    have hsplit := splitLines_whole hcodec
      fun record (hmem : record ∈ log.drop i) => h record (mem_of_mem_drop hmem)
    rw [map_cons, FileWal.readAtOffsets, hfile, drop_text, hsplit, hdrop,
      filterMap_cons_some hline]
    dsimp only
    rw [if_pos (hcodec.text record line hline), hcodec.decode record line hline, ih hplaced.2]
    rfl

namespace Indexed

variable {wal : FileWal}

theorem streamOffsets_eq (h : Indexed codec wal log) (stream : String) :
    wal.streamOffsets stream = (placedOf codec stream log).map Prod.snd := by
  obtain ⟨writer, hwriter, hplaces, -⟩ := h.writer
  rw [← hplaces.streamOffsets stream, FileWal.streamOffsets, hwriter]
  rfl

/-- **Reads**: an indexed log reads as its records, by position, by stream and by page. -/
theorem holds (hcodec : codec.Faithful) (h : Indexed codec wal log) : Holds codec wal log := by
  obtain ⟨writer, hwriter, hplaces, hcounts⟩ := h.writer
  have hofStream : ∀ stream, ∀ p ∈ placedOf codec stream log, p ∈ codec.placed 0 log :=
    fun stream p hp => mem_of_mem_filter hp
  refine ⟨h.numbered, fun after limit => ?_, fun stream => ?_, fun stream after limit => ?_, ?_,
    fun stream => ?_⟩
  · unfold FileWal.readAfter
    rw [hwriter, bind_some, hplaces.offsets, getElem?_map, getElem?_placed]
    cases hget : log[after]? with
    | none =>
      rw [List.getElem?_eq_none_iff] at hget
      simp [drop_eq_nil_of_le hget]
    | some record =>
      have hdrop : ∀ record ∈ log.drop after, (codec.encode record).isSome :=
        fun record hmem => h.encodes record (mem_of_mem_drop hmem)
      have hsplit := splitLines_whole hcodec hdrop
      simp only [map_some]
      rw [h.file, drop_text, hsplit]
      exact readLines_eq hcodec hdrop _ limit
  · rw [FileWal.readStream, h.streamOffsets_eq,
      readAtOffsets_eq hcodec h.file h.encodes (hofStream stream), map_fst_placedOf]
  · have hread : wal.readAtOffsets codec
        (((wal.streamOffsets stream).drop (after.getD 0)).take limit) =
          .ok (((ofStream stream log).drop (after.getD 0)).take limit) := by
      rw [h.streamOffsets_eq, ← map_drop, ← map_take, readAtOffsets_eq hcodec h.file
        h.encodes fun p hp => hofStream stream p (mem_of_mem_drop (mem_of_mem_take hp)),
        map_take, map_drop, map_fst_placedOf]
    have htotal : (wal.streamOffsets stream).length = (ofStream stream log).length := by
      rw [h.streamOffsets_eq, length_map, ← map_fst_placedOf stream log, length_map]
    rw [h.numbered.slice_eq, FileWal.readStreamPage]
    simp only [hread, htotal]
    have hmore : after.getD 0 + (((ofStream stream log).drop (after.getD 0)).take limit).length <
        (ofStream stream log).length ↔ limit < ((ofStream stream log).drop (after.getD 0)).length := by
      rw [length_take, length_drop]
      omega
    exact congrArg (fun more => Except.ok (StreamPage.new _ more)) (decide_eq_decide.mpr hmore)
  · simp [FileWal.head, hwriter, hplaces.offsets]
  · rw [hwriter]
    exact hcounts stream

end Indexed

/-! ## Opening -/

theorem streamPosition_of_numbered {record : LogRecord} (h : Numbered (log ++ [record])) :
    record.streamPosition = (ofStream record.streamName log).length + 1 := by
  have hstream := h.stream record.streamName
  have hone : ofStream record.streamName [record] = [record] := by simp [ofStream]
  rw [ofStream_append, hone, map_append, length_append, length_singleton, range'_concat] at hstream
  have hlast := (append_inj' hstream rfl).2
  simp only [map_cons, map_nil, List.cons.injEq, and_true] at hlast
  omega

theorem scan_lines (hcodec : codec.Faithful) {more : List LogRecord}
    (hnumbered : Numbered (log ++ more)) (hencodes : ∀ record ∈ more, (codec.encode record).isSome)
    {writer : Writer} (hplaces : Places codec writer log)
    (hcounts : Counts writer.streamPositions log) :
    ∃ writer', (more.filterMap codec.encode).foldlM (scanLine codec)
        (writer, (codec.text log).length) =
          .ok (writer', (codec.text (log ++ more)).length) ∧
      Places codec writer' (log ++ more) ∧ Counts writer'.streamPositions (log ++ more) := by
  induction more generalizing log writer with
  | nil => exact ⟨writer, by simp [pure, Except.pure], by simpa using hplaces, by simpa using hcounts⟩
  | cons record more ih =>
    rw [append_cons] at hnumbered ⊢
    rw [forall_mem_cons] at hencodes
    obtain ⟨line, hline⟩ := isSome_iff_exists.mp hencodes.1
    have hposition := streamPosition_of_numbered (hnumbered.front (prefix_append _ _))
    have hlength : (codec.text log).length + line.length + 1 =
        (codec.text (log ++ [record])).length := by
      simp [RecordCodec.line, hline, Nat.add_assoc]
    have hcounts' := hcounts.concat record
    rw [← hposition] at hcounts'
    rw [filterMap_cons_some hline, foldlM_cons]
    obtain ⟨writer', hscan, hindex⟩ := @ih (log ++ [record]) hnumbered hencodes.2
      { writer.place record.streamName (codec.text log).length with
        streamPositions := writer.streamPositions.insert record.streamName record.streamPosition }
      ⟨(hplaces.concat record).offsets, (hplaces.concat record).streamOffsets⟩ hcounts'
    refine ⟨writer', ?_, hindex⟩
    rw [← hscan, ← hlength]
    simp only [scanLine, hcodec.text record line hline, hcodec.decode record line hline, if_true]
    rfl

/-- **Opening**: of numbered records' lines, and a line cut short behind them, the records are
kept and indexed. -/
theorem open_text (hcodec : codec.Faithful) (hnumbered : Numbered log)
    (hencodes : ∀ record ∈ log, (codec.encode record).isSome) {tail : LineBytes}
    (htail : lineBreak ∉ tail) (htext : isText tail = true) :
    ∃ wal, FileWal.open codec (codec.text log ++ tail) = .ok wal ∧ Indexed codec wal log := by
  have hnew : Numbered ([] ++ log) := hnumbered
  obtain ⟨writer, hscan, hplaces, hcounts⟩ := scan_lines hcodec hnew hencodes Places.nil Counts.nil
  rw [nil_append] at hscan hplaces hcounts
  refine ⟨⟨codec.text log, some writer⟩, ?_, rfl, hencodes, hnumbered, writer, rfl, hplaces,
    hcounts⟩
  have hscanned : scan codec (codec.text log ++ tail) =
      .ok (writer, (codec.text log).length) := by
    rw [scan, splitLines_text hcodec hencodes htail]
    simp only [text_nil, length_nil] at hscan
    simp only [hscan, htext, if_true]
    rfl
  rw [FileWal.open, hscanned]
  change Except.ok (⟨(codec.text log ++ tail).take (codec.text log).length, some writer⟩ :
    FileWal) = _
  rw [take_left]

end Aiwatcher.Bus
