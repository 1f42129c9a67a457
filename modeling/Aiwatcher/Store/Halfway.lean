import Aiwatcher.Library.Lines
import Aiwatcher.Store.Crash

/-!
# Aiwatcher.Store.Halfway

Stream files as bytes, one JSON text on each line, and a process that dies while it
writes them.

How a record reads as JSON is left open (`Serde`).  `Torn` is what a stream file is
whenever it is looked at: the front of the lines of some records.  `openStream` cuts such
a file back to whole lines (`openStream_eq`), and `readStream_applyStream` is what writing
a commit makes of the stream read from it.

A commit that is applied again to files some of which have it already.

`Halfway` is a directory each of whose tables is as before a commit or as after it; every
file of the commit keeps that (`halfway_stage`), and applying the whole commit to it gives
the tables the commit makes (`Halfway.apply`).
-/

namespace Aiwatcher.Store

open Engine Library Table LineCodec

/-! ## Bytes -/

/-- The JSON text of a record, and the record of a JSON text. -/
class Serde where
  codec : LineCodec RecordedMessage

/-- A record that reads back from its JSON text. -/
abbrev ReadsBack [Serde] (record : RecordedMessage) : Prop := Serde.codec.Reads record

instance [Serde] : StreamFile ByteArray where
  created := ByteArray.empty
  readValid := Serde.codec.read
  length := ByteArray.size
  setLen n file := file.extract 0 n
  writeLines more file := file ++ Serde.codec.write more

/-- Where every record reads back, bytes are a stream file like any other. -/
class LawfulSerde [Serde] : Prop where
  readsBack : ∀ record : RecordedMessage, ReadsBack record

theorem size_write_pos [Serde] {records : List RecordedMessage} :
    0 < (Serde.codec.write records).size ↔ records ≠ [] := by
  cases records with
  | nil => simp [write, bytes_eq]
  | cons record records =>
    have hline := size_lt_of_front (@List.nil_prefix _ (Serde.codec.line record))
      (by simp [line])
    rw [size_write_cons]
    simp only [ne_eq, reduceCtorEq, not_false_eq_true, iff_true]
    omega

instance [Serde] [LawfulSerde] : LawfulStreamFile ByteArray where
  Whole file messages := file = Serde.codec.write messages
  whole_created := by simp [StreamFile.created, LineCodec.write, bytes_eq]
  whole_writeLines more h := by simp [StreamFile.writeLines, h]
  readValid_of_whole h := by
    rw [h]
    exact LineCodec.read_write fun record _ => LawfulSerde.readsBack record
  length_pos h := by
    rw [h]
    exact size_write_pos

/-! ## Torn files -/

/-- The front of the lines of records that read back. -/
def Torn [Serde] (file : ByteArray) : Prop :=
  ∃ records n, (∀ record ∈ records, ReadsBack record) ∧
    file = (Serde.codec.write records).extract 0 n

section Torn

variable [Serde]

theorem torn_write {records : List RecordedMessage} (h : ∀ record ∈ records, ReadsBack record) :
    Torn (Serde.codec.write records) :=
  ⟨records, (Serde.codec.write records).size, h, ByteArray.extract_zero_size.symm⟩

theorem Torn.read {file : ByteArray} (h : Torn file) :
    ∃ records, (∀ record ∈ records, ReadsBack record) ∧
      Serde.codec.read file = (records, (Serde.codec.write records).size) ∧
      file.extract 0 (Serde.codec.write records).size = Serde.codec.write records := by
  obtain ⟨records, n, hreads, rfl⟩ := h
  by_cases hvalid : ((Serde.codec.write records).extract 0 n).IsValidUTF8
  · have hfits : Serde.codec.fitting n records <+: records := LineCodec.fitting_prefix n records
    obtain ⟨rest, hrest⟩ := hfits
    refine ⟨Serde.codec.fitting n records, fun record hmem => hreads record ?_,
      read_front hreads hvalid, ?_⟩
    · rw [← hrest]
      exact List.mem_append_left _ hmem
    · have hsize : (Serde.codec.write (Serde.codec.fitting n records)).size ≤ n :=
        size_fitting_le n records
      have hsplit : Serde.codec.write records =
          Serde.codec.write (Serde.codec.fitting n records) ++ Serde.codec.write rest := by
        rw [← write_append, hrest]
      rw [ByteArray.extract_extract, Nat.zero_add, Nat.zero_add, Nat.min_eq_left hsize]
      exact hsplit ▸ ByteArray.extract_append_eq_left rfl
  · refine ⟨[], by simp, ?_, ?_⟩
    · rw [read_of_not_isValidUTF8 hvalid]
      simp [write, bytes_eq]
    · simp [write, bytes_eq]

end Torn

namespace Disk

variable [Serde] {disk : Disk ByteArray} {execution : String} {now : OffsetDateTime}

/-- Stream files are torn at worst, and what the journal holds reads back. -/
structure Legible (disk : Disk ByteArray) : Prop where
  files : ∀ (e : String) (file : ByteArray × OffsetDateTime), disk.streams[e]? = some file →
    Torn file.1
  journal : ∀ (at' : Nat) (commit : PendingCommit), disk.commits[at']? = some commit →
    ∀ record ∈ commit.records, ReadsBack record

theorem Legible.readsBack (h : disk.Legible) (execution : String) :
    ∀ record ∈ disk.readStream execution, ReadsBack record := by
  unfold readStream readStreamValid
  cases hfile : disk.streams[execution]? with
  | none => simp
  | some file =>
    obtain ⟨records, hreads, hread, -⟩ := (h.files execution file hfile).read
    show ∀ record ∈ (Serde.codec.read file.1).1, ReadsBack record
    rwa [hread]

/-- **Opening a stream** cuts it back to the lines of what is read from it. -/
theorem Legible.openStream_eq (h : disk.Legible) (execution : String) :
    disk.openStream execution = Serde.codec.write (disk.readStream execution) := by
  unfold openStream readStream readStreamValid
  cases hfile : disk.streams[execution]? with
  | none => simp [StreamFile.created, StreamFile.length, write, bytes_eq]
  | some file =>
    obtain ⟨records, -, hread, hfront⟩ := (h.files execution file hfile).read
    show (if (Serde.codec.read file.1).2 < file.1.size then
      file.1.extract 0 (Serde.codec.read file.1).2 else file.1) =
        Serde.codec.write (Serde.codec.read file.1).1
    rw [hread]
    dsimp only
    split
    · exact hfront
    · rename_i hall
      rw [← hfront, extract_of_size_le (by omega)]

/-- **Writing a commit's lines**, unless the first of them is there. -/
theorem Legible.streams_applyStream (h : disk.Legible) (commit : PendingCommit) :
    (disk.applyStream commit now).streams =
      if disk.already commit then disk.streams
      else disk.streams.insert commit.execution (Serde.codec.write
        (disk.readStream commit.execution ++ commit.records), now) := by
  unfold applyStream
  split
  · rfl
  · show disk.streams.insert commit.execution
      (disk.openStream commit.execution ++ Serde.codec.write commit.records, now) = _
    rw [h.openStream_eq, write_append]

theorem readStream_congr {disk other : Disk ByteArray} {e : String}
    (h : disk.streams[e]? = other.streams[e]?) : disk.readStream e = other.readStream e := by
  simp only [readStream, readStreamValid, h]

theorem readStream_insert (disk : Disk ByteArray) (execution e : String) (file : ByteArray)
    (now : OffsetDateTime) :
    { disk with streams := disk.streams.insert execution (file, now) }.readStream e =
      if execution = e then (Serde.codec.read file).1 else disk.readStream e := by
  unfold readStream readStreamValid
  rw [getElem?_insert]
  split <;> rfl

theorem Legible.insert (h : disk.Legible) {file : ByteArray} (hfile : Torn file)
    (execution : String) (now : OffsetDateTime) :
    { disk with streams := disk.streams.insert execution (file, now) }.Legible :=
  { h with files := forall_insert hfile h.files }

theorem readsBack_append {records more : List RecordedMessage}
    (h : ∀ record ∈ records, ReadsBack record) (hmore : ∀ record ∈ more, ReadsBack record) :
    ∀ record ∈ records ++ more, ReadsBack record := by
  intro record hmem
  rcases List.mem_append.mp hmem with hmem | hmem
  · exact h record hmem
  · exact hmore record hmem

theorem Legible.applyStream (h : disk.Legible) {commit : PendingCommit}
    (hrecords : ∀ record ∈ commit.records, ReadsBack record) :
    (disk.applyStream commit now).Legible := by
  have hwritten := h.insert
    (torn_write (readsBack_append (h.readsBack commit.execution) hrecords)) commit.execution now
  rw [applyStream_eq, h.streams_applyStream]
  split
  · exact h
  · exact hwritten

theorem Legible.readStream_applyStream (h : disk.Legible) {commit : PendingCommit}
    (hrecords : ∀ record ∈ commit.records, ReadsBack record) (e : String) :
    (disk.applyStream commit now).readStream e =
      if commit.execution = e ∧ disk.already commit = false then
        disk.readStream e ++ commit.records
      else disk.readStream e := by
  rw [applyStream_eq, h.streams_applyStream]
  cases disk.already commit with
  | true => simp
  | false =>
    rw [if_neg (by simp), readStream_insert,
      read_write (readsBack_append (h.readsBack commit.execution) hrecords)]
    by_cases he : commit.execution = e
    · simp [he]
    · simp [he]

end Disk

/-! ## Writing twice -/

theorem insert_insert {κ α : Type} [Ord κ] [Std.TransOrd κ] [Std.LawfulEqOrd κ] [DecidableEq κ]
    (table : BTreeMap κ α) (key : κ) (row : α) :
    (table.insert key row).insert key row = table.insert key row := by
  apply Std.ExtTreeMap.ext_getElem?
  intro k
  simp only [getElem?_insert]
  split <;> rfl

theorem newRows_newRows (held rows : List OutboxMessage) :
    Disk.newRows (held ++ Disk.newRows held rows) rows = [] := by
  unfold Disk.newRows
  rw [List.filter_eq_nil_iff]
  intro row hrow
  by_cases hheld : row.messageId ∈ held.map (·.messageId)
  · simp_all
  · have hnew : row ∈ rows.filter fun row => !(held.map (·.messageId)).contains row.messageId := by
      simpa [hrow] using hheld
    have hid : row.messageId ∈ (held ++ rows.filter fun row =>
        !(held.map (·.messageId)).contains row.messageId).map (·.messageId) :=
      List.mem_map_of_mem (List.mem_append_right _ hnew)
    rw [List.contains_iff_mem.mpr hid]
    simp

theorem timers_append_append (timers : Timers) (execution : String) (writes : List TimerWrite) :
    (timers.append execution writes).append execution writes = timers.append execution writes := by
  refine Write.applyAll_applyAll (g := fun timer => timer) (fun _ => rfl) ?_ timers
  intro key f hmem
  obtain ⟨write, -, hwrite⟩ := List.mem_map.mp hmem
  cases write <;> cases hwrite

theorem attempts_append_append (attempts : ClaimTable) (writes : List AttemptWrite) :
    (attempts.append writes).append writes = attempts.append writes := by
  refine Write.applyAll_applyAll (g := AttemptRow.park) (fun _ => rfl) ?_ attempts
  intro key f hmem
  obtain ⟨write, -, hwrite⟩ := List.mem_map.mp hmem
  cases write <;> cases hwrite
  rfl

namespace Disk

variable {β : Type} [StreamFile β] {before x : Disk β} {commit : PendingCommit}
  {now later : OffsetDateTime}

/-! ## Tables as before or as after -/

/-- Each table beside the streams as it was before a commit or as the commit leaves it. -/
structure Halfway (before : Disk β) (commit : PendingCommit) (now : OffsetDateTime) (x : Disk β) :
    Prop where
  ownership : x.ownership = before.ownership ∨ x.ownership = (before.apply commit now).ownership
  projections : x.projections = before.projections ∨
    x.projections = (before.apply commit now).projections
  outbox : x.outbox = before.outbox ∨ x.outbox = (before.apply commit now).outbox
  timers : x.timers = before.timers ∨ x.timers = (before.apply commit now).timers
  attempts : x.attempts = before.attempts ∨ x.attempts = (before.apply commit now).attempts
  checkpoints : x.checkpoints = before.checkpoints ∨
    x.checkpoints = (before.apply commit now).checkpoints
  deciderLeases : x.deciderLeases = before.deciderLeases
  slots : x.slots = before.slots
  commits : x.commits = before.commits

/-- Two directories that hold the same beside the streams. -/
structure SameTables (x y : Disk β) : Prop where
  ownership : x.ownership = y.ownership
  projections : x.projections = y.projections
  outbox : x.outbox = y.outbox
  timers : x.timers = y.timers
  attempts : x.attempts = y.attempts
  checkpoints : x.checkpoints = y.checkpoints
  deciderLeases : x.deciderLeases = y.deciderLeases
  slots : x.slots = y.slots
  commits : x.commits = y.commits

/-- **Applied again**, the commit leaves what it leaves applied once. -/
theorem Halfway.apply (h : Halfway before commit now x) :
    SameTables (x.apply commit later) (before.apply commit now) where
  ownership := by
    rcases h.ownership with heq | heq
    · simp only [ownership_apply, heq]
    · rw [ownership_apply, heq, ownership_apply]
      cases commit.ownership with
      | none => rfl
      | some owner => exact insert_insert ..
  projections := by
    rcases h.projections with heq | heq
    · simp only [projections_apply, heq]
    · rw [projections_apply, heq, projections_apply, insert_insert]
  outbox := by
    rcases h.outbox with heq | heq
    · simp only [outbox_apply, heq]
    · rw [outbox_apply, heq, outbox_apply, newRows_newRows, List.append_nil]
  timers := by
    rcases h.timers with heq | heq
    · simp only [timers_apply, heq]
    · rw [timers_apply, heq, timers_apply, timers_append_append]
  attempts := by
    rcases h.attempts with heq | heq
    · simp only [attempts_apply, heq]
    · rw [attempts_apply, heq, attempts_apply, attempts_append_append]
  checkpoints := by
    rcases h.checkpoints with heq | heq
    · simp only [checkpoints_apply, heq]
    · rw [checkpoints_apply, heq, checkpoints_apply]
      cases commit.checkpoint with
      | none => rfl
      | some cursor => exact insert_insert ..
  deciderLeases := by rw [deciderLeases_apply, deciderLeases_apply, h.deciderLeases]
  slots := by rw [slots_apply, slots_apply, h.slots]
  commits := by rw [commits_apply, commits_apply, h.commits]

theorem halfway_refl (before : Disk β) (commit : PendingCommit) (now : OffsetDateTime) :
    Halfway before commit now before :=
  ⟨.inl rfl, .inl rfl, .inl rfl, .inl rfl, .inl rfl, .inl rfl, rfl, rfl, rfl⟩

theorem Halfway.withStreams (h : Halfway before commit now x)
    (streams : BTreeMap String (β × OffsetDateTime)) :
    Halfway before commit now { x with streams := streams } :=
  { h with }

theorem halfway_stage : ∀ stage ∈ stages commit now, ∀ x : Disk β,
    Halfway before commit now x → Halfway before commit now (stage x) := by
  have hwhole : ∀ x, Halfway before commit now x →
      SameTables (x.apply commit now) (before.apply commit now) := fun _ h => h.apply
  rw [forall_stages]
  refine ⟨fun x h => ?_, fun x h => ?_, fun x h => ?_, fun x h => ?_, fun x h => ?_, fun x h => ?_,
    fun x h => ?_⟩
  · have hlast := (hwhole x h).ownership
    rw [ownership_apply] at hlast
    exact { h with ownership := .inr hlast }
  · show Halfway before commit now (x.applyStream commit now)
    rw [applyStream_eq]
    exact h.withStreams _
  · have hlast := (hwhole x h).projections
    rw [projections_apply] at hlast
    exact { h with projections := .inr hlast }
  · have hlast := (hwhole x h).outbox
    rw [outbox_apply] at hlast
    exact { h with outbox := .inr hlast }
  · have hlast := (hwhole x h).timers
    rw [timers_apply] at hlast
    exact { h with timers := .inr hlast }
  · have hlast := (hwhole x h).attempts
    rw [attempts_apply] at hlast
    exact { h with attempts := .inr hlast }
  · have hlast := (hwhole x h).checkpoints
    rw [checkpoints_apply] at hlast
    exact { h with checkpoints := .inr hlast }

end Disk

end Aiwatcher.Store
