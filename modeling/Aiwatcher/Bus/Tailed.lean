import Aiwatcher.Bus.Subscribed

/-!
# Aiwatcher.Bus.Tailed

The file log keeps its records' positions over any appends whose failed writes leave nothing in
the file, and a replay reads it in order, past what is indexed too (`walInvariant`).
-/

namespace Aiwatcher.Bus

open Library Refusal List Option RecordCodec

/-! ## Batches -/

/-- A batch as it is built: its records' positions, and their lines. -/
structure Batched (codec : RecordCodec LogRecord) (base : Nat) (batch : Batch) : Prop where
  positions : ∀ i event, batch.recorded[i]? = some event → event.globalPosition = base + i + 1
  buffer : batch.buffer = codec.text batch.recorded
  relativeOffsets : batch.relativeOffsets.map Prod.snd =
    (codec.placed 0 batch.recorded).map Prod.snd
  encodes : ∀ record ∈ batch.recorded, (codec.encode record).isSome

variable {codec : RecordCodec LogRecord} {base : Nat} {ingestedAt : OffsetDateTime}

theorem Batched.new (streamPositions : BTreeMap String Nat) :
    Batched codec base { streamPositions } :=
  ⟨by simp, rfl, rfl, by simp⟩

theorem Batched.promote {batch batch' : Batch} (h : Batched codec base batch)
    {envelope : EventEnvelope}
    (hrun : (promote codec base ingestedAt envelope).run batch = .ok () batch') :
    Batched codec base batch' := by
  cases hvalid : envelope.validate with
  | error error =>
    simp only [Bus.promote, hvalid, Except.mapError] at hrun
    simp [MonadExcept.ofExcept] at hrun
  | ok u =>
    simp only [Bus.promote, hvalid, Except.mapError] at hrun
    simp only [bind_ok_iff, ofExcept_ok_iff, modify_ok_iff, get_ok_iff, okOr_ok_iff] at hrun
    obtain ⟨_, _, ⟨-, rfl⟩, _, _, rfl, _, _, ⟨rfl, rfl⟩, line, _, ⟨hline, rfl⟩, hset⟩ := hrun
    cases hset
    simp only [Std.ExtTreeMap.getElem?_insert_self, getD_some] at hline
    refine ⟨fun i event hget => ?_, ?_, ?_, ?_⟩
    · dsimp only at hget
      rw [getElem?_append] at hget
      split at hget
      · exact h.positions i event hget
      · rename_i hout
        cases hsub : i - batch.recorded.length with
        | zero =>
          rw [hsub, getElem?_cons_zero, some.injEq] at hget
          subst hget
          show base + batch.recorded.length + 1 = base + i + 1
          omega
        | succ n => simp [hsub] at hget
    · simp [h.buffer, RecordCodec.line, hline]
    · simp [h.relativeOffsets, h.buffer, placed]
    · simpa [or_imp, forall_and, hline] using h.encodes

variable {events : List EventEnvelope}

theorem Batched.forM {batch batch' : Batch} (h : Batched codec base batch)
    (hrun : (events.forM (Bus.promote codec base ingestedAt)).run batch = .ok () batch') :
    Batched codec base batch' := by
  induction events generalizing batch with
  | nil =>
    cases hrun
    exact h
  | cons envelope events ih =>
    obtain ⟨u, middle, hfirst, hrest⟩ := bind_ok_iff.mp hrun
    exact ih (h.promote hfirst) hrest

/-! ## The file -/

/-- A file of records at their positions, and the index of where each starts. -/
structure Filed (codec : RecordCodec LogRecord) (wal : FileWal) (log : List LogRecord) : Prop where
  file : wal.file = codec.text log
  encodes : ∀ record ∈ log, (codec.encode record).isSome
  contiguous : Contiguous (·.globalPosition) log
  writer : ∃ writer, wal.writer = some writer ∧
    writer.offsets = (codec.placed 0 log).map Prod.snd

variable {wal : FileWal} {log : List LogRecord}

theorem Indexed.filed {wal : FileWal} {log : List LogRecord} (h : Indexed codec wal log) :
    Filed codec wal log := by
  obtain ⟨writer, hwriter, hplaces, -⟩ := h.writer
  refine ⟨h.file, h.encodes, fun i event hget => ?_, writer, hwriter, hplaces.offsets⟩
  have hlt := (List.getElem?_eq_some_iff.mp hget).1
  have hposition := congrArg (·[i]?) h.numbered.global
  simp only [getElem?_map, hget, map_some, getElem?_range' hlt, some.injEq] at hposition
  dsimp only
  omega

theorem Filed.head (h : Filed codec wal log) : wal.head = log.length := by
  obtain ⟨writer, hwriter, hoffsets⟩ := h.writer
  simp [FileWal.head, hwriter, hoffsets]

theorem offsets_place (relative : List (String × Nat)) (base : Nat) (writer : Writer) :
    (relative.foldl (fun writer relative => writer.place relative.1 (base + relative.2))
      writer).offsets = writer.offsets ++ relative.map fun relative => base + relative.2 := by
  induction relative generalizing writer with
  | nil => simp
  | cons first relative ih =>
    rw [foldl_cons, ih, Writer.place]
    simp

theorem contiguous_append {more : List LogRecord} (h : Contiguous (·.globalPosition) log)
    (hmore : ∀ i event, more[i]? = some event → event.globalPosition = log.length + i + 1) :
    Contiguous (·.globalPosition) (log ++ more) := by
  intro i event hget
  rw [getElem?_append] at hget
  split at hget
  · exact h i event hget
  · have hposition := hmore _ event hget
    dsimp only
    omega

theorem Filed.build (h : Filed codec wal log) {writer : Writer} (hwriter : wal.writer = some writer) {batch : Batch}
    (hrun : (events.forM (promote codec writer.offsets.length ingestedAt)).run
      { streamPositions := writer.streamPositions } = .ok () batch) :
    Batched codec log.length batch := by
  obtain ⟨writer', hwriter', hoffsets⟩ := h.writer
  rw [hwriter, some.injEq] at hwriter'
  subst hwriter'
  have hlength : writer.offsets.length = log.length := by simp [hoffsets]
  rw [hlength] at hrun
  exact (Batched.new writer.streamPositions).forM hrun

/-- **A whole write** puts the batch behind the log. -/
theorem Filed.append (h : Filed codec wal log) {writer : Writer} (hwriter : wal.writer = some writer) {batch : Batch}
    (hrun : (events.forM (promote codec writer.offsets.length ingestedAt)).run
      { streamPositions := writer.streamPositions } = .ok () batch) :
    ∃ wal', wal.append codec events ingestedAt .whole = (.ok (.of batch.recorded), wal') ∧
      Filed codec wal' (log ++ batch.recorded) := by
  have hbatch := h.build hwriter hrun
  obtain ⟨writer', hwriter', hoffsets⟩ := h.writer
  rw [hwriter, some.injEq] at hwriter'
  subst hwriter'
  refine ⟨⟨wal.file ++ batch.buffer, some (batch.relativeOffsets.foldl (fun writer relative =>
    writer.place relative.1 (wal.file.length + relative.2))
      { writer with streamPositions := batch.streamPositions })⟩, ?_, ?_, ?_, ?_, _, rfl, ?_⟩
  · unfold FileWal.append
    rw [hwriter]
    dsimp only
    rw [hrun]
  · rw [text_append, h.file, hbatch.buffer]
  · intro record hmem
    exact (mem_append.mp hmem).elim (h.encodes record) (hbatch.encodes record)
  · exact contiguous_append h.contiguous hbatch.positions
  · have hrelative := congrArg (List.map (wal.file.length + ·)) hbatch.relativeOffsets
    rw [List.map_map, List.map_map] at hrelative
    have hplaced := @RecordCodec.placed_add _ codec wal.file.length 0 batch.recorded
    rw [offsets_place, hoffsets, placed_append, map_append, Nat.zero_add,
      ← h.file, ← Nat.add_zero wal.file.length, hplaced, List.map_map]
    exact congrArg _ hrelative

theorem Filed.refused (h : Filed codec wal log) {writer : Writer} (hwriter : wal.writer = some writer)
    {events : List EventEnvelope} {error : BusError} {batch : Batch}
    (hrun : (events.forM (promote codec writer.offsets.length ingestedAt)).run
      { streamPositions := writer.streamPositions } = .error error batch) (write : Write) :
    Filed codec (wal.append codec events ingestedAt write).2 log := by
  obtain ⟨writer', hwriter', hoffsets⟩ := h.writer
  rw [hwriter, some.injEq] at hwriter'
  subst hwriter'
  unfold FileWal.append
  rw [hwriter]
  dsimp only
  rw [hrun]
  exact ⟨h.file, h.encodes, h.contiguous, _, rfl, hoffsets⟩

theorem Filed.failed (h : Filed codec wal log) {writer : Writer} (hwriter : wal.writer = some writer)
    {events : List EventEnvelope} {batch : Batch}
    (hrun : (events.forM (promote codec writer.offsets.length ingestedAt)).run
      { streamPositions := writer.streamPositions } = .ok () batch) :
    Filed codec (wal.append codec events ingestedAt (.failed 0)).2 log := by
  obtain ⟨writer', hwriter', hoffsets⟩ := h.writer
  rw [hwriter, some.injEq] at hwriter'
  subst hwriter'
  unfold FileWal.append
  rw [hwriter]
  dsimp only
  rw [hrun]
  exact ⟨by simp [h.file], h.encodes, h.contiguous, _, rfl, hoffsets⟩

/-! ## The log between its steps -/

/-- The batch an append that holds the lock is writing. -/
structure Writes (codec : RecordCodec LogRecord) (wal : FileWal) (writing : Writing)
    (batch : Batch) : Prop where
  build : ∃ writer, wal.writer = some writer ∧
    (writing.append.events.forM (promote codec writer.offsets.length writing.append.ingestedAt)).run
      { streamPositions := writer.streamPositions } = .ok () batch
  buffer : writing.buffer = batch.buffer

/-- What holds of the log in any run: a file of records, and of the batch behind them so many
records as their lines have landed. -/
structure WalLog.Kept (codec : RecordCodec LogRecord) (log : WalLog) (records : List LogRecord) :
    Prop where
  filed : Filed codec log.wal records
  writing : ∀ writing ∈ log.writing, ∃ batch, Writes codec log.wal writing batch

/-- What stands in the file: records at their positions and no complete line more, those of the
index first, and behind them what has landed of a batch. -/
structure WalLog.Reads (codec : RecordCodec LogRecord) (log : WalLog) (records : List LogRecord) :
    Prop where
  file : ∃ rest, log.file = codec.text (log.records codec) ++ rest ∧ lineBreak ∉ rest
  encodes : ∀ record ∈ log.records codec, (codec.encode record).isSome
  contiguous : Contiguous (·.globalPosition) (log.records codec)
  indexed : records <+: log.records codec
  settled : log.writing = none → log.records codec = records
  landed : ∀ writing ∈ log.writing, ∀ batch, Writes codec log.wal writing batch →
    log.records codec = records ++ codec.lead writing.landed batch.recorded

/-- A write that fails leaves nothing of it in the file. -/
def WalLog.Spared (log : WalLog) : WalStep → Prop
  | .fails => ∀ writing ∈ log.writing, writing.landed = 0
  | _ => True

namespace WalLog.Kept

variable {log log' : WalLog} {records : List LogRecord}

theorem reads (hcodec : codec.Faithful) (h : log.Kept codec records) :
    log.Reads codec records := by
  have hread : ∀ (all : List LogRecord) (rest : LineBytes),
      log.file = codec.text all ++ rest → (∀ record ∈ all, (codec.encode record).isSome) →
        lineBreak ∉ rest → log.records codec = all := by
    intro all rest hfile hencodes hrest
    rw [WalLog.records, hfile, splitLines_text hcodec hencodes hrest,
      filterMap_decode hcodec hencodes]
  cases hwriting : log.writing with
  | none =>
    have hfile : log.file = codec.text records ++ [] := by
      simp [WalLog.file, hwriting, h.filed.file]
    have hrecords := hread records [] hfile h.filed.encodes not_mem_nil
    exact ⟨⟨[], by rw [hrecords]; exact hfile, not_mem_nil⟩,
      by rw [hrecords]; exact h.filed.encodes, by rw [hrecords]; exact h.filed.contiguous,
      by rw [hrecords], fun _ => hrecords, by simp [hwriting]⟩
  | some writing =>
    obtain ⟨batch, hwrites⟩ := h.writing writing hwriting
    obtain ⟨writer, hwriter, hrun⟩ := hwrites.build
    have hbatch := h.filed.build hwriter hrun
    obtain ⟨rest, htake, hrest⟩ := take_lead hcodec hbatch.encodes writing.landed
    have hlead := @RecordCodec.lead_prefix_all _ codec writing.landed batch.recorded
    have hencodes : ∀ record ∈ records ++ codec.lead writing.landed batch.recorded,
        (codec.encode record).isSome := fun record hmem =>
      (mem_append.mp hmem).elim (h.filed.encodes record) fun hmem =>
        hbatch.encodes record (hlead.subset hmem)
    have hfile : log.file =
        codec.text (records ++ codec.lead writing.landed batch.recorded) ++ rest := by
      rw [WalLog.file, hwriting, elim_some, hwrites.buffer, hbatch.buffer, htake,
        h.filed.file, text_append, append_assoc]
    have hrecords := hread _ rest hfile hencodes hrest
    have hcontiguous : Contiguous (·.globalPosition)
        (records ++ codec.lead writing.landed batch.recorded) := by
      refine contiguous_append h.filed.contiguous fun i event hget => ?_
      obtain ⟨more, hmore⟩ := hlead
      refine hbatch.positions i event ?_
      rw [← hmore, getElem?_append_left (List.getElem?_eq_some_iff.mp hget).1, hget]
    refine ⟨⟨rest, by rw [hrecords]; exact hfile, hrest⟩, by rw [hrecords]; exact hencodes,
      by rw [hrecords]; exact hcontiguous, by rw [hrecords]; exact prefix_append _ _,
      by simp [hwriting], ?_⟩
    · rw [hrecords, hwriting]
      rintro writing' ⟨⟩ batch' hwrites'
      obtain ⟨writer', hwriter', hrun'⟩ := hwrites'.build
      rw [hwriter, some.injEq] at hwriter'
      subst hwriter'
      rw [hrun] at hrun'
      cases hrun'
      rfl

theorem act (hcodec : codec.Faithful) (h : log.Kept codec records) {step : WalStep}
    (hspared : log.Spared step) {batches : List (List LogRecord)}
    (hact : log.act codec step = some (log', batches)) :
    ∃ records', log'.Kept codec records' ∧ records <+: records' ∧
      log.records codec <+: log'.records codec ∧
        ∀ batch ∈ batches, ∀ event ∈ batch, event ∈ records' := by
  have hreads := h.reads hcodec
  cases step with
  | begins append =>
    simp only [WalLog.act] at hact
    split at hact
    · rename_i writer hnone hwriter
      have hsettled := hreads.settled hnone
      split at hact
      · rename_i u batch hrun
        cases hact
        have hkept : WalLog.Kept codec
            { log with writing := some { append, buffer := batch.buffer } } records :=
          ⟨h.filed, by rintro writing ⟨⟩; exact ⟨batch, ⟨⟨writer, hwriter, hrun⟩, rfl⟩⟩⟩
        refine ⟨records, hkept, prefix_rfl, ?_, by simp⟩
        rw [hsettled]
        exact (hkept.reads hcodec).indexed
      · rename_i error batch hrun
        cases hact
        have hkept : WalLog.Kept codec
            { log with wal := (log.wal.append codec append.events append.ingestedAt .whole).2 }
            records :=
          ⟨h.filed.refused hwriter hrun .whole, by simp [hnone]⟩
        refine ⟨records, hkept, prefix_rfl, ?_, by simp⟩
        rw [hsettled]
        exact (hkept.reads hcodec).indexed
    · cases hact
  | lands bytes =>
    simp only [WalLog.act, map_eq_some_iff, Prod.mk.injEq] at hact
    obtain ⟨writing, hwriting, rfl, rfl⟩ := hact
    obtain ⟨batch, hwrites⟩ := h.writing writing hwriting
    have hkept : WalLog.Kept codec { log with
        writing := some { writing with landed := writing.landed + bytes } } records :=
      ⟨h.filed, by rintro writing' ⟨⟩; exact ⟨batch, ⟨hwrites.build, hwrites.buffer⟩⟩⟩
    refine ⟨records, hkept, prefix_rfl, ?_, by simp⟩
    rw [hreads.landed writing hwriting batch hwrites, (hkept.reads hcodec).landed _ rfl batch
      ⟨hwrites.build, hwrites.buffer⟩]
    exact (prefix_append_right_inj _).mpr
      (lead_mono (Nat.le_add_right _ _) _)
  | finishes =>
    simp only [WalLog.act, map_eq_some_iff, Prod.mk.injEq] at hact
    obtain ⟨writing, hwriting, rfl, rfl⟩ := hact
    obtain ⟨batch, hwrites⟩ := h.writing writing hwriting
    obtain ⟨writer, hwriter, hrun⟩ := hwrites.build
    obtain ⟨wal', happend, hfiled⟩ := h.filed.append hwriter hrun
    rw [happend]
    have hkept : WalLog.Kept codec { wal := wal' } (records ++ batch.recorded) :=
      ⟨hfiled, by simp⟩
    refine ⟨_, hkept, prefix_append _ _, ?_, ?_⟩
    · rw [hreads.landed writing hwriting batch hwrites, (hkept.reads hcodec).settled rfl]
      exact (prefix_append_right_inj _).mpr (lead_prefix_all _ _)
    · simp +contextual [AppendResult.of]
  | fails =>
    simp only [WalLog.act, map_eq_some_iff, Prod.mk.injEq] at hact
    obtain ⟨writing, hwriting, rfl, rfl⟩ := hact
    obtain ⟨batch, hwrites⟩ := h.writing writing hwriting
    obtain ⟨writer, hwriter, hrun⟩ := hwrites.build
    have hzero := hspared writing hwriting
    have hkept : WalLog.Kept codec { wal := (log.wal.append codec writing.append.events
        writing.append.ingestedAt (.failed writing.landed)).2 } records := by
      rw [hzero]
      exact ⟨h.filed.failed hwriter hrun, by simp⟩
    refine ⟨records, hkept, prefix_rfl, ?_, by simp⟩
    have hlead : codec.lead writing.landed batch.recorded = [] := by
      rw [hzero, lead_zero]
    rw [hreads.landed writing hwriting batch hwrites, hlead, append_nil]
    exact (hkept.reads hcodec).indexed

end WalLog.Kept

/-! ## Replays -/

theorem readLines_ok (hcodec : codec.Faithful) {records : List LogRecord}
    (h : ∀ record ∈ records, (codec.encode record).isSome) {place : Nat → Place} {limit : Nat}
    {tail : LineBytes} {events : List LogRecord}
    (hread : FileWal.readLines codec place limit (records.filterMap codec.encode) tail =
      .ok events) : events = records.take limit := by
  induction records generalizing limit place events with
  | nil =>
    cases limit with
    | zero =>
      cases hread
      rfl
    | succ limit =>
      simp only [filterMap_nil, FileWal.readLines] at hread
      split at hread
      · cases hread
        rfl
      · cases hread
  | cons record records ih =>
    rw [forall_mem_cons] at h
    obtain ⟨line, hline⟩ := isSome_iff_exists.mp h.1
    rw [filterMap_cons_some hline] at hread
    cases limit with
    | zero =>
      simp only [FileWal.readLines] at hread
      cases hread
      rfl
    | succ limit =>
      rw [FileWal.readLines, if_pos (hcodec.text record line hline),
        hcodec.decode record line hline] at hread
      obtain ⟨rest, hrest, heq⟩ := except_bind_ok_iff.mp hread
      cases heq
      rw [take_succ_cons, ih h.2 hrest]

/-- What a replay is at: a record's line, or the records behind what was delivered. -/
def WalReplay.Stands (codec : RecordCodec LogRecord) (all : List LogRecord) (delivered : Nat) :
    WalReplay → Prop
  | .look => True
  | .read offset => delivered < all.length ∧ offset = (codec.text (all.take delivered)).length
  | .batch events => events <+: all.drop delivered

/-- What was handed over of the log by a replay that is not at its end. -/
structure WalReplay.Left (codec : RecordCodec LogRecord) (log : WalLog)
    (subscription : Subscription SubscribeOptions WalReplay LogRecord) (replay : WalReplay) :
    Prop where
  events : subscription.events = (between (log.records codec) subscription.start
    subscription.delivered).filter (matchesStream subscription.options)
  after : subscription.start ≤ subscription.delivered
  reach : subscription.delivered ≤ (log.records codec).length ∨
    subscription.delivered = subscription.start
  stands : replay.Stands codec (log.records codec) subscription.delivered

namespace WalReplay.Left

variable {log log' : WalLog} {records : List LogRecord}
  {subscription : Subscription SubscribeOptions WalReplay LogRecord} {replay : WalReplay}

theorem grows (h : Left codec log subscription replay)
    (hgrows : log.records codec <+: log'.records codec) : Left codec log' subscription replay := by
  obtain ⟨more, hmore⟩ := hgrows
  obtain ⟨hevents, hafter, hreach, hstands⟩ := h
  refine ⟨?_, hafter, ?_, ?_⟩
  · rw [hevents, ← hmore]
    rcases hreach with hreach | hstart
    · rw [between_append hreach]
    · rw [between_of_le (by omega), between_of_le (by omega)]
  · rw [← hmore, length_append]
    omega
  · rw [← hmore]
    cases replay with
    | look => exact trivial
    | read offset =>
      obtain ⟨hlt, hoffset⟩ := hstands
      refine ⟨?_, ?_⟩
      · rw [length_append]
        omega
      · rw [take_append_of_le_length (by omega), hoffset]
    | batch events =>
      exact hstands.trans ((prefix_append _ _).drop _)

theorem look (h : Left codec log subscription .look) (hcodec : codec.Faithful)
    (hkept : log.Kept codec records) {offset : Nat}
    (hoffset : log.wal.writer.bind (·.offsets[subscription.delivered]?) = some offset) :
    Left codec log (subscription.replayed
      { delivered := subscription.delivered, replay := some (.read offset) }) (.read offset) := by
  obtain ⟨writer, hwriter, hoffsets⟩ := hkept.filed.writer
  have hindexed := (hkept.reads hcodec).indexed
  rw [hwriter, bind_some, hoffsets, getElem?_map, getElem?_placed,
    Option.map_map, map_eq_some_iff] at hoffset
  obtain ⟨record, hrecord, rfl⟩ := hoffset
  have hlt := (List.getElem?_eq_some_iff.mp hrecord).1
  obtain ⟨more, hmore⟩ := hindexed
  refine ⟨?_, h.after, h.reach, ?_, ?_⟩
  · simpa [Subscription.replayed, Subscription.events] using h.events
  · rw [← hmore, length_append]
    simp only [Subscription.replayed]
    omega
  · rw [← hmore]
    simp only [Subscription.replayed, Function.comp_apply]
    rw [take_append_of_le_length (by omega)]

theorem following (h : Left codec log subscription .look) (hcodec : codec.Faithful)
    (hkept : log.Kept codec records) (hfree : log.writing = none)
    (hnext : subscription.next ≤ records.length)
    (hend : log.wal.writer.bind (·.offsets[subscription.delivered]?) = none)
    {onward : Onward WalReplay LogRecord}
    (hhanded : onward.handed = some (.caughtUp subscription.delivered))
    (hdelivered : onward.delivered = subscription.delivered) :
    Following (walSource codec) log (subscription.replayed onward) records.length := by
  obtain ⟨writer, hwriter, hoffsets⟩ := hkept.filed.writer
  have hsettled := (hkept.reads hcodec).settled hfree
  rw [hwriter, bind_some, hoffsets, getElem?_map, getElem?_placed,
    Option.map_map, map_eq_none_iff, List.getElem?_eq_none_iff] at hend
  have hmax : max records.length subscription.next = records.length := Nat.max_eq_left hnext
  have hevents := h.events
  have hreach := h.reach
  rw [hsettled] at hevents hreach
  rw [between_of_length_le hend] at hevents
  refine ⟨?_, ?_, ?_, ?_, ?_⟩
  · simpa [Subscription.replayed, Subscription.events, hhanded, filterMap_cons,
      Handed.event?, hmax, walSource, hsettled, between_of_length_le] using hevents
  · simp [Subscription.replayed, hmax, walSource, hsettled]
  · simpa [Subscription.replayed, hdelivered] using h.after
  · simp only [Subscription.replayed, hdelivered, hmax]
    omega
  · intro event hmem hlow hhigh
    simp only [Subscription.replayed, hdelivered, hmax, walSource] at hlow hhigh
    omega

theorem read {offset : Nat} (h : Left codec log subscription (.read offset))
    (hcodec : codec.Faithful) (hkept : log.Kept codec records) (limit : Nat)
    (place : Nat → Place) {events : List LogRecord}
    (hread : FileWal.readLines codec place (limit + 1) (splitLines (log.file.drop offset)).1
      (splitLines (log.file.drop offset)).2 = .ok events) :
    events ≠ [] ∧ events <+: (log.records codec).drop subscription.delivered := by
  have hreads := hkept.reads hcodec
  obtain ⟨rest, hfile, hrest⟩ := hreads.file
  obtain ⟨hlt, hoffset⟩ := h.stands
  have hencodes : ∀ record ∈ (log.records codec).drop subscription.delivered,
      (codec.encode record).isSome := fun record hmem =>
    hreads.encodes record (mem_of_mem_drop hmem)
  have hwithin : offset ≤ (codec.text (log.records codec)).length := by
    have hall := congrArg (fun all => (codec.text all).length)
      (take_append_drop subscription.delivered (log.records codec))
    rw [text_append, length_append] at hall
    omega
  rw [hfile, drop_append_of_le_length hwithin, hoffset, drop_text,
    splitLines_text hcodec hencodes hrest] at hread
  rw [readLines_ok hcodec hencodes hread]
  refine ⟨?_, take_prefix _ _⟩
  rw [Ne, take_eq_nil_iff, drop_eq_nil_iff]
  omega

theorem hand {event : LogRecord} {events : List LogRecord}
    (h : Left codec log subscription (.batch (event :: events)))
    (hcontiguous : Contiguous (·.globalPosition) (log.records codec)) :
    Left codec log (subscription.replayed {
        handed := if matchesStream subscription.options event then some (.event event) else none
        delivered := event.globalPosition
        replay := some (.batch events) }) (.batch events) := by
  obtain ⟨rest, hrest⟩ := h.stands
  have hget : (log.records codec)[subscription.delivered]? = some event := by
    rw [← head?_drop, ← hrest]
    rfl
  have hposition := hcontiguous _ event hget
  have hlt := (List.getElem?_eq_some_iff.mp hget).1
  have hafter := h.after
  dsimp only at hposition
  refine ⟨?_, ?_, ?_, ?_⟩
  · simp only [Subscription.replayed, Subscription.events, filterMap_append, hposition]
    rw [between_succ hget hafter, filter_append, ← h.events]
    by_cases hmatches : matchesStream subscription.options event = true
    · simp [hmatches, Handed.event?, Subscription.events]
    · simp [hmatches, Subscription.events]
  · simp only [Subscription.replayed, hposition]
    omega
  · simp only [Subscription.replayed, hposition]
    omega
  · simp only [Subscription.replayed, hposition, WalReplay.Stands]
    rw [← drop_drop, ← hrest]
    exact prefix_append _ _

end WalReplay.Left

/-- **In the file**: whatever is appended, where a write that fails leaves nothing. -/
def walInvariant (codec : RecordCodec LogRecord) (hcodec : codec.Faithful) :
    (walSource codec).Invariant WalLog.Spared where
  Inv log := ∃ records, log.Kept codec records
  committed log := log.wal.head
  Replays := WalReplay.Left codec
  contiguous := by
    rintro log ⟨records, hkept⟩
    exact (hkept.reads hcodec).contiguous
  committed_le := by
    rintro log ⟨records, hkept⟩
    rw [hkept.filed.head]
    exact (hkept.reads hcodec).indexed.length_le
  act := by
    rintro log step log' batches ⟨records, hkept⟩ hspared hact
    obtain ⟨records', hkept', hgrows, hall, hbatches⟩ := hkept.act hcodec hspared hact
    refine ⟨⟨records', hkept'⟩, hall, ?_, fun batch hbatch event hevent => ?_⟩
    · rw [hkept.filed.head, hkept'.filed.head]
      exact hgrows.length_le
    · have hmem := hbatches batch hbatch event hevent
      obtain ⟨i, hi⟩ := List.getElem?_of_mem hmem
      have hlt := (List.getElem?_eq_some_iff.mp hi).1
      have hposition := hkept'.filed.contiguous i event hi
      refine ⟨(hkept'.reads hcodec).indexed.subset hmem, ?_⟩
      rw [hkept'.filed.head]
      dsimp only [walSource] at hposition ⊢
      omega
  opens := by
    rintro log subscription start replay ⟨records, hkept⟩ hnone hnext hopens
    simp only [walSource] at hopens
    split at hopens
    · cases hopens
    · cases hopens
      refine ⟨?_, Nat.le_refl _, .inr rfl, trivial⟩
      rw [between_of_le (Nat.le_refl _)]
      exact hnone
  grows := by
    rintro log log' step batches subscription replay ⟨records, hkept⟩ hspared hact h
    obtain ⟨-, -, -, hall, -⟩ := hkept.act hcodec hspared hact
    exact h.grows hall
  goes := by
    rintro log subscription replay onward ⟨records, hkept⟩ h hnext hreplay
    rw [hkept.filed.head] at hnext
    cases replay with
    | look =>
      simp only [walSource] at hreplay
      split at hreplay
      · cases hreplay
      · rename_i hfree
        have hfree : log.writing = none := by simpa using hfree
        split at hreplay
        · rename_i offset hoffset
          cases hreplay
          exact ⟨by rintro rest ⟨⟩; exact h.look hcodec hkept hoffset, by simp⟩
        · rename_i hend
          cases hreplay
          exact ⟨by simp, fun _ => ⟨_, h.following hcodec hkept hfree hnext hend rfl rfl⟩⟩
    | read offset =>
      simp only [walSource] at hreplay
      split at hreplay
      · cases hreplay
      · rename_i hread
        obtain ⟨hne, -⟩ := h.read hcodec hkept (max subscription.options.batchSize 1 - 1) _
          (by rw [Nat.sub_add_cancel (Nat.le_max_right _ _)]; exact hread)
        exact absurd rfl hne
      · rename_i event events hread
        obtain ⟨-, hstands⟩ := h.read hcodec hkept (max subscription.options.batchSize 1 - 1) _
          (by rw [Nat.sub_add_cancel (Nat.le_max_right _ _)]; exact hread)
        cases hreplay
        refine ⟨?_, by simp⟩
        rintro rest ⟨⟩
        exact ⟨by simpa [Subscription.replayed, Subscription.events] using h.events, h.after,
          h.reach, hstands⟩
    | batch events =>
      cases events with
      | nil =>
        cases hreplay
        refine ⟨?_, by simp⟩
        rintro rest ⟨⟩
        exact ⟨by simpa [Subscription.replayed, Subscription.events] using h.events, h.after,
          h.reach, trivial⟩
      | cons event events =>
        cases hreplay
        refine ⟨?_, by simp⟩
        rintro rest ⟨⟩
        exact h.hand (hkept.reads hcodec).contiguous
  first := by
    rintro log subscription replay ⟨records, hkept⟩ h
    rw [due_eq (hkept.reads hcodec).contiguous, h.events]
    exact (between_prefix_drop _ _ _).filter _

end Aiwatcher.Bus
