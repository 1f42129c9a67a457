import Aiwatcher.Bus.Tailed
import Aiwatcher.Bus.Whole

/-!
# Aiwatcher.Bus.Agreeing

What both adapters answer alike over whole runs (`adapters_agree`), and where they part: a batch
that is refused past its first envelope, and two processors whose names make one file's
(`adapters_differ`).
-/

namespace Aiwatcher.Bus

open Library Refusal List Std

/-! ## Checkpoints -/

theorem toList_padded (n : Nat) :
    (padded n).toList = List.replicate (20 - n.repr.length) '0' ++ n.repr.toList := by
  rw [padded, String.toList_append, String.pushn_eq_repeat_push]
  congr 1
  generalize 20 - n.repr.length = k
  induction k with
  | zero => rfl
  | succ k ih => rw [Nat.repeat, String.toList_push, ih, replicate_succ']

theorem isDigit_of_mem_padded {n : Nat} {c : Char} (h : c ∈ (padded n).toList) :
    c.isDigit = true := by
  rw [toList_padded, mem_append] at h
  rcases h with h | h
  · rw [eq_of_mem_replicate h]
    rfl
  · exact isDigit_of_mem_repr h

theorem trim_of_solid {s : String} (h : ∀ c ∈ s.toList, isWhitespace c = false) : trim s = s := by
  have hkeep : ∀ {chars : List Char}, (∀ c ∈ chars, isWhitespace c = false) →
      chars.dropWhile isWhitespace = chars := by
    intro chars hsolid
    cases chars with
    | nil => rfl
    | cons c chars => rw [dropWhile_cons, if_neg (by simp [hsolid])]
  rw [trim, hkeep h, hkeep (by simpa using h), reverse_reverse, String.ofList_toList]

theorem isWhitespace_of_isDigit {c : Char} (h : c.isDigit = true) : isWhitespace c = false := by
  have hrange : 48 ≤ c.toNat ∧ c.toNat ≤ 57 := by
    simpa [Char.isDigit, UInt32.le_iff_toNat_le] using h
  simp [isWhitespace]
  omega

/-- **A checkpoint's file** reads back as the checkpoint. -/
theorem parse_padded {n : Nat} (h : n < 2 ^ 64) :
    Checkpoint.parse (trim (padded n)) = .ok n := by
  have hdigits : (padded n).toList.all Char.isDigit = true :=
    all_eq_true.mpr fun c hc => isDigit_of_mem_padded hc
  have hne : padded n ≠ "" := by
    intro heq
    have hlist := toList_padded n
    rw [heq] at hlist
    simp at hlist
  have hvalue : Nat.ofDigitChars 10 (padded n).toList 0 = n := by
    rw [toList_padded, Nat.ofDigitChars_append, Nat.ofDigitChars_replicate_zero, Nat.mul_zero,
      Nat.toList_repr, Nat.ofDigitChars_ten_toDigits]
  rw [trim_of_solid fun c hc => isWhitespace_of_isDigit (isDigit_of_mem_padded hc),
    Checkpoint.parse, if_neg hne, if_pos hdigits]
  simp only [hvalue]
  rw [if_pos h]

/-! ## Appends -/

variable {codec : RecordCodec LogRecord} {front : List LogRecord} {ingestedAt : OffsetDateTime}

/-- The log in memory that holds a batch behind other records. -/
def Batch.behind (front : List LogRecord) (batch : Batch) : Log where
  events := front ++ batch.recorded
  streamPositions := batch.streamPositions

theorem put_of_promote {envelope : EventEnvelope} {batch batch' : Batch}
    (hrun : (promote codec front.length ingestedAt envelope).run batch = .ok () batch') :
    ∃ event, (Log.put ingestedAt envelope).run (batch.behind front) =
        .ok event (batch'.behind front) ∧
      batch'.recorded = batch.recorded ++ [event] ∧ event.checkpoint = event.globalPosition := by
  cases hvalid : envelope.validate with
  | error error =>
    simp only [promote, hvalid, Except.mapError] at hrun
    simp [MonadExcept.ofExcept] at hrun
  | ok u =>
    simp only [promote, hvalid, Except.mapError] at hrun
    simp only [bind_ok_iff, ofExcept_ok_iff, modify_ok_iff, get_ok_iff, okOr_ok_iff] at hrun
    obtain ⟨_, _, ⟨-, rfl⟩, _, _, rfl, _, _, ⟨rfl, rfl⟩, line, _, ⟨-, rfl⟩, hset⟩ := hrun
    cases hset
    refine ⟨_, ?_, rfl, rfl⟩
    simp only [Log.put, hvalid, Except.mapError]
    simp only [bind_ok_iff, ofExcept_ok_iff, modify_ok_iff, get_ok_iff]
    exact ⟨u, _, ⟨trivial, rfl⟩, (), _, rfl, _, _, ⟨rfl, rfl⟩, (), _, rfl, by
      simp [Batch.behind]⟩

theorem mapM_put_of_promote {events : List EventEnvelope} {batch batch' : Batch}
    (hrun : (events.forM (promote codec front.length ingestedAt)).run batch = .ok () batch') :
    ∃ recorded, (events.mapM (Log.put ingestedAt)).run (batch.behind front) =
        .ok recorded (batch'.behind front) ∧
      batch'.recorded = batch.recorded ++ recorded ∧
        ∀ event ∈ recorded, event.checkpoint = event.globalPosition := by
  induction events generalizing batch with
  | nil =>
    cases hrun
    exact ⟨[], rfl, by simp, by simp⟩
  | cons envelope events ih =>
    obtain ⟨u, middle, hfirst, hrest⟩ := bind_ok_iff.mp hrun
    obtain ⟨event, hput, hmiddle, hcheckpoint⟩ := put_of_promote hfirst
    obtain ⟨recorded, hputs, hbatch, hcheckpoints⟩ := ih hrest
    refine ⟨event :: recorded, ?_, by simp [hbatch, hmiddle], by simpa [hcheckpoint] using hcheckpoints⟩
    rw [mapM_cons]
    exact bind_ok_iff.mpr ⟨event, _, hput, bind_ok_iff.mpr ⟨recorded, _, hputs, rfl⟩⟩

/-! ## Both adapters -/

/-- The buses hold the same: the records, the counters, and what each processor saved, of which no
two share a file. -/
structure Alike (codec : RecordCodec LogRecord) (memory : InMemoryBus) (file : FileBus) :
    Prop where
  indexed : Indexed codec file.wal memory.log.events
  streamPositions : ∀ writer ∈ file.wal.writer,
    writer.streamPositions = memory.log.streamPositions
  checkpoints : ∀ event ∈ memory.log.events, event.checkpoint = event.globalPosition
  saved : ∀ (processorId : String) checkpoint, memory.checkpoints[processorId]? = some checkpoint →
    checkpoint < 2 ^ 64 ∧
      file.checkpoints[checkpointPath processorId]? = some (padded checkpoint)
  files : ∀ (path : String) raw, file.checkpoints[path]? = some raw →
    ∃ processorId ∈ memory.checkpoints, checkpointPath processorId = path

/-- No other processor that saved has this one's file. -/
def InMemoryBus.Alone (bus : InMemoryBus) (processorId : String) : Prop :=
  ∀ other ∈ bus.checkpoints, checkpointPath other = checkpointPath processorId →
    other = processorId

instance (bus : InMemoryBus) (processorId : String) : Decidable (bus.Alone processorId) :=
  decidable_of_iff (∀ other ∈ bus.checkpoints.keys,
      checkpointPath other = checkpointPath processorId → other = processorId) (by
    simp [InMemoryBus.Alone])

/-- Where a step is answered alike: a batch is refused for its first envelope, or recorded and
written whole; and a processor's name makes a file's name, that no other makes. -/
def Plain (codec : RecordCodec LogRecord) (nameMax : Nat) (before : InMemoryBus) : BusAct → Prop
  | .append events ingestedAt write =>
    (∃ first ∈ events.head?, ¬ first.Valid) ∨
      (Recordable codec before.log.events.length ingestedAt events ∧ write = .whole)
  | .load processorId => FileBus.named nameMax (checkpointPath processorId) ∧
      before.Alone processorId
  | .save processorId checkpoint => FileBus.named nameMax (checkpointPath processorId ++ ".tmp") ∧
      checkpointPath processorId ≠ "" ∧ before.Alone processorId ∧ checkpoint < 2 ^ 64
  | _ => True

variable {memory : InMemoryBus} {file : FileBus} {nameMax : Nat}

namespace Alike

theorem append (h : Alike codec memory file) {events : List EventEnvelope}
    (hevents : Recordable codec memory.log.events.length ingestedAt events) :
    ∃ result log wal, (Log.append events ingestedAt).run memory.log = .ok result log ∧
      file.wal.append codec events ingestedAt .whole = (.ok result, wal) ∧
      Alike codec { memory with log } { file with wal } := by
  obtain ⟨result, wal, happend, hindexed⟩ := appended_whole h.indexed hevents
  obtain ⟨writer, hwriter, hplaces, -⟩ := h.indexed.writer
  have hlength : writer.offsets.length = memory.log.events.length := by simp [hplaces.offsets]
  have happended := happend
  unfold FileWal.append at happended
  rw [hwriter] at happended
  dsimp only at happended
  rw [hlength] at happended
  split at happended
  · cases happended
  · rename_i u batch hrun
    cases happended
    obtain ⟨recorded, hputs, hrecorded, hcheckpoints⟩ := mapM_put_of_promote hrun
    rw [nil_append] at hrecorded
    subst hrecorded
    have hlog : ({ streamPositions := writer.streamPositions } : Batch).behind
        memory.log.events = memory.log := by
      rw [Batch.behind, append_nil, h.streamPositions writer hwriter]
    rw [hlog] at hputs
    refine ⟨.of batch.recorded, batch.behind memory.log.events, _, ?_, happend, hindexed, ?_, ?_,
      h.saved, h.files⟩
    · exact bind_ok_iff.mpr ⟨batch.recorded, _, hputs, rfl⟩
    · rintro writer' ⟨⟩
      exact streamPositions_place _ _ _ _
    · intro event hmem
      exact (mem_append.mp hmem).elim (h.checkpoints event) (hcheckpoints event)

/-- **Refused appends**: a batch whose first envelope is refused is refused for it, and changes
nothing. -/
theorem refused (h : Alike codec memory file) {envelope : EventEnvelope}
    (hinvalid : ¬ envelope.Valid) (events : List EventEnvelope) (ingestedAt : OffsetDateTime)
    (write : Write) :
    ∃ error, (Log.append (envelope :: events) ingestedAt).run memory.log =
        .error error memory.log ∧
      file.wal.append codec (envelope :: events) ingestedAt write = (.error error, file.wal) := by
  obtain ⟨writer, hwriter, -⟩ := h.indexed.writer
  unfold EventEnvelope.Valid at hinvalid
  cases hvalidate : envelope.validate with
  | ok u => exact absurd hvalidate hinvalid
  | error error =>
    refine ⟨.invalid error, ?_, ?_⟩
    · simp only [Log.append, mapM_cons, Log.put, hvalidate, Except.mapError]
      simp [MonadExcept.ofExcept]
    · have hrun : ((envelope :: events).forM (promote codec writer.offsets.length ingestedAt)).run
          { streamPositions := writer.streamPositions } =
            .error (.invalid error) { streamPositions := writer.streamPositions } := by
        simp only [forM_eq_forM, forM_cons, promote, hvalidate, Except.mapError]
        simp [MonadExcept.ofExcept]
      obtain ⟨file, checkpoints⟩ := file
      obtain ⟨bytes, index⟩ := file
      dsimp only at hwriter
      subst hwriter
      unfold FileWal.append
      dsimp only
      rw [hrun]

theorem reads (hcodec : codec.Faithful) (h : Alike codec memory file) :
    (∀ after limit, file.wal.readAfter codec after limit = .ok (memory.log.read after limit)) ∧
      (∀ stream, file.wal.readStream codec stream = .ok (memory.log.readStream stream)) ∧
      (∀ stream after limit, file.wal.readStreamPage codec stream after limit =
        .ok (memory.log.readStreamPage stream after limit)) ∧
      file.wal.head = memory.log.head := by
  have hholds := h.indexed.holds hcodec
  have hcontiguous := h.indexed.filed.contiguous
  refine ⟨fun after limit => ?_, hholds.readStream, fun stream after limit => ?_, ?_⟩
  · have hdrop := due_eq_filter hcontiguous (fun _ => true) after
    simp only [Bool.and_true, filter_true] at hdrop
    rw [hholds.read, Log.read, hdrop]
  · rw [hholds.page, StreamPage.slice, Log.readStreamPage]
    rw [take_take, Nat.min_eq_left (Nat.le_succ limit), length_take]
    congr 2
    exact decide_eq_decide.mpr (by omega)
  · rw [hholds.head, Log.head]
    cases hlast : memory.log.events.getLast? with
    | none =>
      rw [getLast?_eq_none_iff] at hlast
      simp [hlast, Checkpoint.beginning]
    | some event =>
      have hmem := mem_of_getLast? hlast
      rw [getLast?_eq_getElem?] at hlast
      have hposition := hcontiguous _ event hlast
      have hpos := length_pos_of_mem hmem
      rw [Option.elim_some, h.checkpoints event hmem]
      exact (hposition.trans (Nat.sub_add_cancel hpos)).symm

theorem load (h : Alike codec memory file) {processorId : String}
    (hnamed : FileBus.named nameMax (checkpointPath processorId))
    (halone : memory.Alone processorId) :
    file.load nameMax processorId = .ok memory.checkpoints[processorId]? := by
  simp only [FileBus.load, hnamed, if_true]
  cases hmemory : memory.checkpoints[processorId]? with
  | some checkpoint =>
    obtain ⟨hlt, hfile⟩ := h.saved processorId checkpoint hmemory
    simp only [hfile, parse_padded hlt]
    rfl
  | none =>
    cases hfile : file.checkpoints[checkpointPath processorId]? with
    | none => rfl
    | some raw =>
      obtain ⟨other, hmem, hpath⟩ := h.files _ raw hfile
      rw [halone other hmem hpath] at hmem
      rw [ExtTreeMap.mem_iff_isSome_getElem?, hmemory] at hmem
      cases hmem

theorem save (h : Alike codec memory file) {processorId : String} {checkpoint : Checkpoint}
    (hnamed : FileBus.named nameMax (checkpointPath processorId ++ ".tmp"))
    (hname : checkpointPath processorId ≠ "") (halone : memory.Alone processorId)
    (hlt : checkpoint < 2 ^ 64) :
    ∃ file', file.save nameMax processorId checkpoint = (.ok (), file') ∧
      Alike codec
        { memory with checkpoints := memory.checkpoints.insert processorId checkpoint } file' := by
  have hpath : FileBus.named nameMax (checkpointPath processorId) = true := by
    simp only [FileBus.named, String.length_append] at hnamed ⊢
    simp [hname] at hnamed ⊢
    omega
  have hsave : file.save nameMax processorId checkpoint = (.ok (), { file with
      checkpoints := file.checkpoints.insert (checkpointPath processorId) (padded checkpoint) }) := by
    rw [FileBus.save, hpath, hnamed]
    rfl
  refine ⟨_, hsave, h.indexed, h.streamPositions, h.checkpoints, fun other saved hsaved => ?_, fun path raw hraw => ?_⟩
  · rw [Table.getElem?_insert] at hsaved
    by_cases heq : processorId = other
    · subst heq
      rw [if_pos rfl, Option.some.injEq] at hsaved
      subst hsaved
      exact ⟨hlt, by simp⟩
    · rw [if_neg heq] at hsaved
      obtain ⟨hsmall, hfile⟩ := h.saved other saved hsaved
      refine ⟨hsmall, ?_⟩
      rw [Table.getElem?_insert, if_neg, hfile]
      intro hsame
      have hmem : other ∈ memory.checkpoints := by
        rw [ExtTreeMap.mem_iff_isSome_getElem?, hsaved]
        rfl
      exact heq (halone other hmem hsame.symm).symm
  · rw [Table.getElem?_insert] at hraw
    by_cases heq : checkpointPath processorId = path
    · exact ⟨processorId, by simp, heq⟩
    · rw [if_neg heq] at hraw
      obtain ⟨other, hmem, hother⟩ := h.files path raw hraw
      exact ⟨other, by simp [hmem], hother⟩

theorem perform (hcodec : codec.Faithful) (h : Alike codec memory file) {act : BusAct}
    (hplain : Plain codec nameMax memory act) :
    (file.perform nameMax codec act).1 = (memory.perform act).1 ∧
      Alike codec (memory.perform act).2 (file.perform nameMax codec act).2 := by
  obtain ⟨hread, hreadStream, hpage, hhead⟩ := h.reads hcodec
  cases act with
  | append events ingestedAt write =>
    rcases hplain with ⟨first, hfirst, hinvalid⟩ | ⟨hevents, rfl⟩
    · obtain ⟨rest, rfl⟩ := List.head?_eq_some_iff.mp hfirst
      obtain ⟨error, hmemory, hfile⟩ := h.refused hinvalid rest ingestedAt write
      simp only [FileBus.perform, InMemoryBus.perform, hmemory, hfile]
      exact ⟨rfl, h⟩
    · obtain ⟨result, log, wal, hmemory, hfile, halike⟩ := h.append hevents
      simp only [FileBus.perform, InMemoryBus.perform, hmemory, hfile]
      exact ⟨rfl, halike⟩
  | read after limit =>
    simp only [FileBus.perform, hread]
    exact ⟨rfl, h⟩
  | readStream stream =>
    simp only [FileBus.perform, hreadStream]
    exact ⟨rfl, h⟩
  | readStreamPage stream after limit =>
    simp only [FileBus.perform, hpage]
    exact ⟨rfl, h⟩
  | head =>
    simp only [FileBus.perform, hhead]
    exact ⟨rfl, h⟩
  | load processorId =>
    simp only [FileBus.perform, h.load hplain.1 hplain.2]
    exact ⟨rfl, h⟩
  | save processorId checkpoint =>
    obtain ⟨hnamed, hname, halone, hlt⟩ := hplain
    obtain ⟨file', hsave, halike⟩ := h.save hnamed hname halone hlt
    simp only [FileBus.perform, hsave]
    exact ⟨rfl, halike⟩

theorem new : Alike codec {} {} :=
  ⟨⟨rfl, by simp, Numbered.nil, {}, rfl, Places.nil, Counts.nil⟩, by rintro writer ⟨⟩; rfl, by simp,
    by simp, by simp⟩

end Alike

/-- **Both adapters** answer the same over any run whose steps are plain. -/
theorem adapters_agree (codec : RecordCodec LogRecord) (hcodec : codec.Faithful) (nameMax : Nat)
    (acts : List BusAct)
    (hplain : ∀ st ∈ memoryBus.run {} acts, Plain codec nameMax st.before st.input) :
    (fileBus codec nameMax).emitted {} acts = memoryBus.emitted {} acts := by
  refine Machine.emitted_lockstep (Alike codec) (Plain codec nameMax) ?_ ?_ Alike.new hplain
  · intro memory file act halike hstep
    cases hstep
  · intro memory file act out memory' halike hadmits hstep
    obtain ⟨hanswer, halike'⟩ := halike.perform hcodec hadmits
    cases hstep
    exact ⟨_, by rw [← hanswer]; rfl, halike'⟩

/-! ## One run -/

/-- A batch, a refused one, a checkpoint saved and loaded, and all of it read. -/
def onceEach : List BusAct :=
  [.append [started] second .whole, .append [{ started with runId := "" }] second .whole,
    .save "projector" 1, .load "projector", .load "archive", .read 0 10,
    .readStreamPage "run:run-1" none 1, .head]

theorem adapters_agree_onceEach :
    (fileBus startedJson 255).emitted {} onceEach = memoryBus.emitted {} onceEach ∧
      (memoryBus.emitted {} onceEach).drop 3 = [.checkpoint (some 1), .checkpoint none,
        .events [started.record 1 1 second], .page ⟨[started.record 1 1 second], none, false⟩,
        .checkpoint (some 1)] := by
  refine ⟨adapters_agree startedJson faithful_startedJson 255 onceEach ?_, by decide +kernel⟩
  simp only [onceEach, Machine.run, memoryBus, List.forall_mem_cons]
  refine ⟨.inr ⟨recordable_started ?_ ?_, rfl⟩, .inl ⟨_, rfl, ?_⟩, ⟨?_, ?_, ?_, ?_⟩, ⟨?_, ?_⟩,
    ⟨?_, ?_⟩, trivial, trivial, trivial, by simp⟩
  · decide
  · simp
  · unfold EventEnvelope.Valid
    decide
  all_goals decide +kernel

/-- A batch refused for its second envelope. -/
def refusedBatch : List BusAct :=
  [.append [started, { started with runId := "" }] second .whole, .head]

/-- Two processors, one file. -/
def sharedFile : List BusAct := [.save "a/b" 7, .load "a_b"]

theorem adapters_differ :
    ¬ ((fileBus startedJson 255).emitted {} refusedBatch = memoryBus.emitted {} refusedBatch) ∧
      ¬ ((fileBus startedJson 255).emitted {} sharedFile = memoryBus.emitted {} sharedFile) := by
  decide +kernel

end Aiwatcher.Bus
