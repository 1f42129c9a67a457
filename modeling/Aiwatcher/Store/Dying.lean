import Aiwatcher.Store.Forgotten
import Aiwatcher.Store.Halfway

/-!
# Aiwatcher.Store.Dying

An append whose process dies, after any file of its commit or any byte of its stream
write, and the `recover` of the process that comes after it.

* `crash_is_atomic_iff` — what is read is what was there before the append or what the
  whole append leaves, exactly where `Survives` holds of the death;
* `legible_after` — deaths and operations in any order leave a directory that this is
  about.
-/

namespace Aiwatcher.Store

open Engine Library List Table Std LineCodec

/-- Where a process dies in an append: before its record is in the journal, behind so many
of its files, or behind so many bytes of its lines. -/
inductive Death where
  | unaccepted
  | files (reached : Nat)
  | stream (written : Nat)

namespace Disk

section Die

variable [Serde] (disk : Disk ByteArray)

/-- The owner is written, the torn tail is cut away, and so many bytes of a commit's lines
are written behind it. -/
def dieInStream (commit : PendingCommit) (now : OffsetDateTime) (written : Nat) :
    Disk ByteArray :=
  let disk := disk.applyOwnership commit
  if disk.already commit then disk
  else
    let lines := (Serde.codec.write commit.records).extract 0 written
    { disk with streams :=
        disk.streams.insert commit.execution (disk.openStream commit.execution ++ lines, now) }

/-- An append whose process dies. -/
def die (size : WorkflowMessage → Nat) (binding : ScopeBinding) (execution : String)
    (request : AppendRequest) (now : OffsetDateTime) (death : Death) : Disk ByteArray :=
  match request.checkPayloads size with
  | .error _ => disk
  | .ok () =>
    let disk := disk.recover now
    match disk.accept binding execution request now with
    | .inl _ => disk
    | .inr commit =>
      match death with
      | .unaccepted => disk
      | .files reached => (disk.journal commit now).applyUpTo commit now reached
      | .stream written => (disk.journal commit now).dieInStream commit now written

/-- A death that recovering makes up for.  Of lines that end between two characters, none is
complete or all of them are; lines that end inside a character have no stream before
them. -/
def Survives (commit : PendingCommit) : Death → Prop
  | .stream written =>
    let lines := Serde.codec.write commit.records
    ((lines.extract 0 written).IsValidUTF8 →
      written < (Serde.codec.write (commit.records.take 1)).size ∨ lines.size ≤ written) ∧
    (¬ (lines.extract 0 written).IsValidUTF8 → disk.readStream commit.execution = [])
  | _ => True

/-- What an append would write reads back. -/
def Readable (execution : String) (request : AppendRequest) (now : OffsetDateTime) : Prop :=
  ∀ record ∈ numbered now ((disk.recover now).readStream execution).length request.messages,
    ReadsBack record

end Die

/-- Two directories that read the same. -/
structure ReadsAs [Serde] (x y : Disk ByteArray) : Prop where
  streams : ∀ execution, x.readStream execution = y.readStream execution
  tables : SameTables x y

/-! ## What is accepted -/

section Accept

variable {β : Type} [StreamFile β] {disk : Disk β} {binding : ScopeBinding} {execution : String}
  {request : AppendRequest} {now : OffsetDateTime} {commit : PendingCommit}

/-- The commit of an accepted append is the input and its outputs, and the input is not in
the stream. -/
structure Accepted (disk : Disk β) (execution : String) (request : AppendRequest)
    (now : OffsetDateTime) (commit : PendingCommit) : Prop where
  about : commit.execution = execution
  records : commit.records = numbered now (disk.readStream execution).length request.messages
  unseen : ∀ message ∈ disk.readStream execution,
    message.metadata.messageId ≠ request.inputId

theorem accepted_of_accept (h : disk.accept binding execution request now = .inr commit) :
    disk.Accepted execution request now commit := by
  unfold accept at h
  dsimp only at h
  split at h
  · cases h
  · split at h
    · cases h
    · rename_i hunseen
      split at h
      · cases h
      · cases h
        exact ⟨rfl, rfl, fun message hmem => by simpa using find?_eq_none.mp hunseen message hmem⟩

theorem Accepted.records_cons (h : disk.Accepted execution request now commit) :
    ∃ first rest, commit.records = first :: rest ∧
      first.metadata.messageId = request.inputId := by
  rw [h.records, AppendRequest.messages]
  exact ⟨_, _, rfl, rfl⟩

theorem already_eq_any {first : RecordedMessage} {rest : List RecordedMessage}
    (hrecords : commit.records = first :: rest) : disk.already commit =
      (disk.readStream commit.execution).any fun message =>
        message.metadata.messageId == first.metadata.messageId := by
  simp [already, hrecords]

end Accept

/-! ## A stream, recovered -/

/-- A stream as recovering a commit leaves it: the commit's records are written unless the
first of them is there. -/
def recovered (read records : List RecordedMessage) : List RecordedMessage :=
  if records.head?.any fun first =>
      read.any fun message => message.metadata.messageId == first.metadata.messageId then read
  else read ++ records

theorem recovered_of_unseen {read : List RecordedMessage} {first : RecordedMessage}
    {rest : List RecordedMessage} (h : (read.any fun message =>
      message.metadata.messageId == first.metadata.messageId) = false) :
    recovered read (first :: rest) = read ++ first :: rest := by
  simp [recovered, h]

theorem recovered_of_seen {read : List RecordedMessage} {first : RecordedMessage}
    {rest : List RecordedMessage} (h : first ∈ read) : recovered read (first :: rest) = read := by
  have hany : (read.any fun message =>
      message.metadata.messageId == first.metadata.messageId) = true :=
    any_eq_true.mpr ⟨first, h, by simp⟩
  simp [recovered, hany]

theorem any_recovered (read : List RecordedMessage) (first : RecordedMessage)
    (rest : List RecordedMessage) : ((recovered read (first :: rest)).any fun message =>
      message.metadata.messageId == first.metadata.messageId) = true := by
  cases hseen : read.any fun message =>
      message.metadata.messageId == first.metadata.messageId with
  | false => simp [recovered_of_unseen hseen]
  | true => simp [recovered, hseen]

/-! ## What a death leaves -/

section Left

variable [Serde] {before x y : Disk ByteArray} {commit : PendingCommit} {now later : OffsetDateTime}
  {read : List RecordedMessage}

/-- What a death leaves of a commit over the directory that journalled it: tables as before
or as after, and of the commit's own stream what is read of it. -/
structure Left (before : Disk ByteArray) (commit : PendingCommit) (now : OffsetDateTime)
    (read : List RecordedMessage) (x : Disk ByteArray) : Prop where
  halfway : Halfway before commit now x
  legible : x.Legible
  own : x.readStream commit.execution = read
  others : ∀ e, e ≠ commit.execution → x.readStream e = before.readStream e

theorem Left.refl (h : before.Legible) :
    Left before commit now (before.readStream commit.execution) before :=
  ⟨halfway_refl before commit now, h, rfl, fun _ _ => rfl⟩

theorem Left.beside (h : Left before commit now read x) (hhalfway : Halfway before commit now y)
    (hstreams : y.streams = x.streams) : Left before commit now read y where
  halfway := hhalfway
  legible :=
    { files := fun e file hfile => h.legible.files e file (hstreams ▸ hfile)
      journal := fun at' held hheld => h.legible.journal at' held (by
        rwa [h.halfway.commits, ← hhalfway.commits]) }
  own := (readStream_congr (by rw [hstreams])).trans h.own
  others e he := (readStream_congr (by rw [hstreams])).trans (h.others e he)

variable {first : RecordedMessage} {rest : List RecordedMessage}

/-- **After so many files**, the stream is as before or has all of the commit. -/
theorem left_files (h : before.Legible) (hrecords : ∀ record ∈ commit.records, ReadsBack record)
    (hunseen : before.already commit = false) (hcons : commit.records = first :: rest)
    (now : OffsetDateTime) (reached : Nat) :
    ∃ read, (read = before.readStream commit.execution ∨
        read = before.readStream commit.execution ++ commit.records) ∧
      Left before commit now read (before.applyUpTo commit now reached) := by
  refine applyUpTo_keeps (P := fun x => ∃ read, (read = before.readStream commit.execution ∨
    read = before.readStream commit.execution ++ commit.records) ∧ Left before commit now read x)
    ?_ ⟨_, .inl rfl, .refl h⟩ reached
  intro stage hstage x hx
  obtain ⟨read, hread, hleft⟩ := hx
  have hhalfway : Halfway before commit now (stage x) :=
    halfway_stage stage hstage x hleft.halfway
  have hbeside : (stage x).streams = x.streams →
      ∃ read, (read = before.readStream commit.execution ∨
        read = before.readStream commit.execution ++ commit.records) ∧
        Left before commit now read (stage x) :=
    fun hstreams => ⟨read, hread, hleft.beside hhalfway hstreams⟩
  simp only [stages, mem_cons, not_mem_nil, or_false] at hstage
  rcases hstage with rfl | rfl | rfl | rfl | rfl | rfl | rfl
  · exact hbeside rfl
  · have hlegible : (x.applyStream commit now).Legible := hleft.legible.applyStream hrecords
    have hothers : ∀ e, e ≠ commit.execution →
        (x.applyStream commit now).readStream e = before.readStream e := by
      intro e he
      rw [hleft.legible.readStream_applyStream hrecords, if_neg (fun hown => he hown.1.symm),
        hleft.others e he]
    refine ⟨before.readStream commit.execution ++ commit.records, .inr rfl, hhalfway, hlegible, ?_,
      hothers⟩
    rw [hleft.legible.readStream_applyStream hrecords, hleft.own]
    rcases hread with rfl | rfl
    · have hfalse : x.already commit = false := by
        rw [already_eq_any hcons, hleft.own, ← already_eq_any hcons, hunseen]
      rw [if_pos ⟨rfl, hfalse⟩]
    · have htrue : x.already commit = true := by
        rw [already_eq_any hcons, hleft.own, hcons]
        simp
      rw [if_neg (by simp [htrue])]
  · exact hbeside rfl
  · exact hbeside rfl
  · exact hbeside rfl
  · exact hbeside rfl
  · exact hbeside rfl

theorem write_append_extract (records more : List RecordedMessage) (n : Nat) :
    Serde.codec.write records ++ (Serde.codec.write more).extract 0 n =
      (Serde.codec.write (records ++ more)).extract 0 ((Serde.codec.write records).size + n) := by
  have hall : (Serde.codec.write records).extract 0 ((Serde.codec.write records).size + n) =
      Serde.codec.write records := extract_of_size_le (by omega)
  rw [write_append, ByteArray.extract_append, hall]
  simp

theorem dieInStream_eq (before : Disk ByteArray) (commit : PendingCommit) (now : OffsetDateTime)
    (written : Nat) : before.dieInStream commit now written =
      { before.applyOwnership commit with
        streams := (before.dieInStream commit now written).streams } := by
  unfold dieInStream
  dsimp only
  split <;> rfl

/-- The stream file is the first bytes of what the whole write would have made of it. -/
theorem streams_dieInStream (h : before.Legible) (hunseen : before.already commit = false)
    (now : OffsetDateTime) (written : Nat) : (before.dieInStream commit now written).streams =
      before.streams.insert commit.execution
        ((Serde.codec.write (before.readStream commit.execution ++ commit.records)).extract 0
          ((Serde.codec.write (before.readStream commit.execution)).size + written), now) := by
  have howned : (before.applyOwnership commit).already commit = false := hunseen
  have hopen : (before.applyOwnership commit).openStream commit.execution =
      Serde.codec.write (before.readStream commit.execution) := h.openStream_eq commit.execution
  unfold dieInStream
  dsimp only
  rw [if_neg (by simp [howned]), hopen, write_append_extract]
  rfl

/-- **After so many bytes**, the stream reads as what was there and the lines that are whole,
or as nothing where a character is cut. -/
theorem left_stream (h : before.Legible) (hrecords : ∀ record ∈ commit.records, ReadsBack record)
    (hunseen : before.already commit = false) (written : Nat) :
    Left before commit now
      (if ((Serde.codec.write commit.records).extract 0 written).IsValidUTF8 then
        before.readStream commit.execution ++ Serde.codec.fitting written commit.records
      else []) (before.dieInStream commit now written) := by
  have hreads := readsBack_append (h.readsBack commit.execution) hrecords
  have hstreams := streams_dieInStream h hunseen now written
  have hread (e : String) := (readStream_congr (by rw [hstreams])).trans
    (readStream_insert before commit.execution e ((Serde.codec.write
      (before.readStream commit.execution ++ commit.records)).extract 0
        ((Serde.codec.write (before.readStream commit.execution)).size + written)) now)
  refine ⟨?_, ?_, ?_, fun e he => ?_⟩
  · have howner := halfway_stage (applyOwnership · commit) (by simp [stages]) before
      (halfway_refl before commit now)
    rw [dieInStream_eq]
    exact howner.withStreams _
  · have htorn : Torn ((Serde.codec.write
        (before.readStream commit.execution ++ commit.records)).extract 0
          ((Serde.codec.write (before.readStream commit.execution)).size + written)) :=
      ⟨_, _, hreads, rfl⟩
    have hinsert := h.insert htorn commit.execution now
    rw [dieInStream_eq, hstreams]
    exact ⟨hinsert.files, hinsert.journal⟩
  · rw [hread, if_pos rfl]
    split
    · rename_i hvalid
      rw [read_front hreads, fitting_append]
      rwa [← write_append_extract, write, isValidUTF8_bytes_append_iff]
    · rename_i hinvalid
      rw [read_of_not_isValidUTF8]
      rwa [← write_append_extract, write, isValidUTF8_bytes_append_iff]
  · rw [hread, if_neg (Ne.symm he)]

/-! ## What recovering makes of it -/

theorem readStream_finish (disk : Disk ByteArray) (at' : Nat) (commit : PendingCommit)
    (now : OffsetDateTime) (e : String) : (disk.finish (at', commit) now).readStream e =
      (disk.applyStream commit now).readStream e :=
  readStream_congr (by show (disk.apply commit now).streams[e]? = _; rw [streams_apply])

/-- **Recovered after a death**: every table is as the whole append leaves it, and so is
every stream but the commit's own. -/
theorem Left.recover (h : Left before commit now read x)
    (hrecords : ∀ record ∈ commit.records, ReadsBack record) {at' : Nat}
    (hjournal : before.commits = (∅ : BTreeMap Nat PendingCommit).insert at' commit)
    (later : OffsetDateTime) :
    SameTables (x.recover later) (before.finish (at', commit) now) ∧
      (x.recover later).readStream commit.execution = recovered read commit.records ∧
      ∀ e, e ≠ commit.execution → (x.recover later).readStream e = before.readStream e := by
  have hsame : SameTables (x.apply commit later) (before.apply commit now) := h.halfway.apply
  rw [recover_of_single (h.halfway.commits.trans hjournal)]
  refine ⟨{ hsame with commits := ?_ }, ?_, fun e he => ?_⟩
  · show (x.apply commit later).commits.erase at' = (before.apply commit now).commits.erase at'
    rw [hsame.commits]
  · have halready : x.already commit = commit.records.head?.any fun first =>
        read.any fun message => message.metadata.messageId == first.metadata.messageId := by
      rw [already, h.own]
    rw [readStream_finish, h.legible.readStream_applyStream hrecords, halready, h.own, recovered]
    split <;> simp_all
  · rw [readStream_finish, h.legible.readStream_applyStream hrecords,
      if_neg (fun hown => he hown.1.symm), h.others e he]

/-! ## Whether that is the whole append -/

theorem fitting_eq_nil_iff {n : Nat} :
    Serde.codec.fitting n (first :: rest) = [] ↔
      n < (Serde.codec.write ((first :: rest).take 1)).size := by
  have hfirst : (Serde.codec.write ((first :: rest).take 1)).size =
      (bytes (Serde.codec.line first)).size := by
    rw [take_one, head?_cons, Option.toList_some, size_write_cons]
    simp [write, bytes_eq]
  rw [hfirst, fitting]
  split <;> simp <;> omega

theorem fitting_eq_self_iff {records : List RecordedMessage} {n : Nat} :
    Serde.codec.fitting n records = records ↔ (Serde.codec.write records).size ≤ n := by
  refine ⟨fun h => ?_, fitting_of_size_le⟩
  have hle : (Serde.codec.write (Serde.codec.fitting n records)).size ≤ n :=
    size_fitting_le n records
  rwa [h] at hle

/-- **A stream write that was cut** is made up for exactly where `Survives` says so. -/
theorem recovered_cut_iff (hunseen : before.already commit = false)
    (hcons : commit.records = first :: rest) (written : Nat) :
    recovered (if ((Serde.codec.write commit.records).extract 0 written).IsValidUTF8 then
        before.readStream commit.execution ++ Serde.codec.fitting written commit.records
      else []) commit.records = before.readStream commit.execution ++ commit.records ↔
        before.Survives commit (.stream written) := by
  rw [already_eq_any hcons] at hunseen
  unfold Survives
  dsimp only
  by_cases hvalid : ((Serde.codec.write commit.records).extract 0 written).IsValidUTF8
  · simp only [hvalid, if_true, forall_const, not_true_eq_false, false_implies, and_true]
    rw [hcons]
    cases hfits : Serde.codec.fitting written (first :: rest) with
    | nil =>
      rw [append_nil, recovered_of_unseen hunseen]
      have hshort := fitting_eq_nil_iff.mp hfits
      simp only [hshort, true_or]
    | cons whole fits =>
      have hfirst : whole = first := by
        have hfront : Serde.codec.fitting written (first :: rest) <+: first :: rest :=
          LineCodec.fitting_prefix written (first :: rest)
        rw [hfits] at hfront
        exact (cons_prefix_cons.mp hfront).1
      have hlong : ¬ written < (Serde.codec.write ((first :: rest).take 1)).size := by
        rw [← fitting_eq_nil_iff, hfits]
        simp
      subst hfirst
      rw [recovered_of_seen (by simp), append_cancel_left_eq, ← hfits, fitting_eq_self_iff]
      simp only [hlong, false_or]
  · simp only [hvalid, if_false, not_false_eq_true, forall_const, false_implies, true_and]
    rw [hcons, recovered_of_unseen (by simp)]
    simp

theorem not_survives_first (h : 1 < commit.records.length) :
    ¬ before.Survives commit (.stream (Serde.codec.write (commit.records.take 1)).size) := by
  have hsplit : Serde.codec.write commit.records = Serde.codec.write (commit.records.take 1) ++
      Serde.codec.write (commit.records.drop 1) := by
    rw [← write_append, take_append_drop]
  have hrest : 0 < (Serde.codec.write (commit.records.drop 1)).size :=
    size_write_pos.mpr (ne_nil_of_length_pos (by rw [length_drop]; omega))
  have hcut : ((Serde.codec.write commit.records).extract 0
      (Serde.codec.write (commit.records.take 1)).size).IsValidUTF8 := by
    rw [hsplit, ByteArray.extract_append_eq_left rfl, write, bytes_eq]
    exact ByteArray.isValidUTF8_utf8Encode
  intro hsurvives
  have hwhole := hsurvives.1 hcut
  rw [hsplit, ByteArray.size_append] at hwhole
  omega

end Left

/-! ## Recovering keeps a directory legible -/

section Legible

variable [Serde] {disk x y : Disk ByteArray} {commit : PendingCommit} {now later : OffsetDateTime}

theorem legible_stage (hrecords : ∀ record ∈ commit.records, ReadsBack record) :
    ∀ stage ∈ stages commit now, ∀ disk : Disk ByteArray, disk.Legible → (stage disk).Legible := by
  rw [forall_stages]
  exact ⟨fun _ h => ⟨h.files, h.journal⟩, fun _ h => h.applyStream hrecords,
    fun _ h => ⟨h.files, h.journal⟩, fun _ h => ⟨h.files, h.journal⟩,
    fun _ h => ⟨h.files, h.journal⟩, fun _ h => ⟨h.files, h.journal⟩,
    fun _ h => ⟨h.files, h.journal⟩⟩

theorem legible_new : (new : Disk ByteArray).Legible where
  files e file hfile := by simp [new] at hfile
  journal at' commit hcommit := by simp [new] at hcommit

section

variable (h : disk.Legible)

include h

theorem Legible.erase (at' : Nat) : { disk with commits := disk.commits.erase at' }.Legible :=
  { h with journal := fun n commit hcommit => h.journal n commit (of_erase hcommit).2 }

theorem Legible.finish {pending : Nat × PendingCommit}
    (hrecords : ∀ record ∈ pending.2.records, ReadsBack record) :
    (disk.finish pending now).Legible :=
  (apply_keeps (legible_stage hrecords) h).erase pending.1

theorem Legible.readsBack_pending : ∀ pending ∈ disk.pending,
    ∀ record ∈ pending.2.records, ReadsBack record :=
  fun _ hpending => h.journal _ _ (ExtTreeMap.mem_toList_iff_getElem?_eq_some.mp hpending)

theorem Legible.recover (now : OffsetDateTime) : (disk.recover now).Legible :=
  recover_keeps (fun _ hpending _ hdisk => hdisk.finish (h.readsBack_pending _ hpending)) h

theorem Legible.journalled (hrecords : ∀ record ∈ commit.records, ReadsBack record) :
    (disk.journal commit now).Legible :=
  { h with journal := forall_insert hrecords h.journal }

end

theorem ReadsAs.finish (h : ReadsAs x y) (hx : x.Legible) (hy : y.Legible)
    {pending : Nat × PendingCommit}
    (hrecords : ∀ record ∈ pending.2.records, ReadsBack record) :
    ReadsAs (x.finish pending now) (y.finish pending later) := by
  have halready : x.already pending.2 = y.already pending.2 := by
    rw [already, already, h.streams]
  refine ⟨fun e => ?_, ?_⟩
  · rw [readStream_finish, readStream_finish, hx.readStream_applyStream hrecords, hy.readStream_applyStream hrecords,
      halready, h.streams]
  · have ht := h.tables
    refine ⟨?_, ?_, ?_, ?_, ?_, ?_, ?_, ?_, ?_⟩ <;>
      simp [Disk.finish, ht.ownership, ht.projections, ht.outbox, ht.timers, ht.attempts,
        ht.checkpoints, ht.deciderLeases, ht.slots, ht.commits]

/-- **Whenever a store is recovered**, the same is read. -/
theorem readsAs_recover (h : disk.Legible) (now later : OffsetDateTime) :
    ReadsAs (disk.recover now) (disk.recover later) := by
  have hall : ∀ (todo : List (Nat × PendingCommit)) (x y : Disk ByteArray),
      (∀ pending ∈ todo, ∀ record ∈ pending.2.records, ReadsBack record) →
      x.Legible → y.Legible → ReadsAs x y →
      ReadsAs (todo.foldl (fun disk pending => disk.finish pending now) x)
        (todo.foldl (fun disk pending => disk.finish pending later) y) := by
    intro todo
    induction todo with
    | nil => exact fun _ _ _ _ _ h => h
    | cons pending todo ih =>
      intro x y hreads hx hy h
      rw [forall_mem_cons] at hreads
      exact ih _ _ hreads.2 (hx.finish hreads.1) (hy.finish hreads.1)
        (h.finish hx hy hreads.1)
  exact hall disk.pending disk disk h.readsBack_pending h h
    ⟨fun _ => rfl, ⟨rfl, rfl, rfl, rfl, rfl, rfl, rfl, rfl, rfl⟩⟩

end Legible

/-! ## Dying in an append -/

section Dying

variable [Serde] {disk : Disk ByteArray} {size : WorkflowMessage → Nat} {binding : ScopeBinding}
  {execution : String} {request : AppendRequest} {now : OffsetDateTime} {commit : PendingCommit}
  {death : Death}

/-- What is read when the store is recovered from a death is what was to be read before the
append, or what is to be read after the whole of it. -/
def Atomic (disk : Disk ByteArray) (size : WorkflowMessage → Nat) (binding : ScopeBinding)
    (execution : String) (request : AppendRequest) (now : OffsetDateTime) (death : Death) : Prop :=
  ∀ later, ReadsAs ((disk.die size binding execution request now death).recover later)
      (disk.recover later) ∨
    ReadsAs ((disk.die size binding execution request now death).recover later)
      ((disk.append binding size execution request now).2.recover later)

theorem Readable.of_accepted (h : disk.Readable execution request now)
    (haccepted : (disk.recover now).Accepted execution request now commit) :
    ∀ record ∈ commit.records, ReadsBack record := by
  rw [haccepted.records]
  exact h

theorem Accepted.already_eq_false {disk : Disk ByteArray}
    (h : disk.Accepted execution request now commit) : disk.already commit = false := by
  obtain ⟨first, rest, hcons, hid⟩ := h.records_cons
  rw [already_eq_any hcons, h.about, hid, any_eq_false]
  exact fun message hmem => by simpa using h.unseen message hmem

theorem left_died (hlegible : disk.Legible) (hreads : disk.Readable execution request now)
    (hpayloads : request.checkPayloads size = .ok ())
    (haccept : (disk.recover now).accept binding execution request now = .inr commit)
    (death : Death) :
    death = .unaccepted ∧ disk.die size binding execution request now death = disk.recover now ∨
      ∃ read, Left ((disk.recover now).journal commit now) commit now read
          (disk.die size binding execution request now death) ∧
        (recovered read commit.records = (disk.recover now).readStream execution ++ commit.records ↔
          (disk.recover now).Survives commit death) ∧
        recovered read commit.records ≠ (disk.recover now).readStream execution := by
  have haccepted := accepted_of_accept haccept
  have hrecords := hreads.of_accepted haccepted
  have hjournal : ((disk.recover now).journal commit now).Legible :=
    (hlegible.recover now).journalled hrecords
  have hunseen : ((disk.recover now).journal commit now).already commit = false :=
    haccepted.already_eq_false
  obtain ⟨first, rest, hcons, -⟩ := haccepted.records_cons
  have hnew : ∀ read, recovered read commit.records ≠ (disk.recover now).readStream execution := by
    intro read heq
    have hany := any_recovered read first rest
    rw [← hcons, heq, ← haccepted.about, ← already_eq_any hcons, haccepted.already_eq_false] at hany
    cases hany
  unfold die
  rw [hpayloads]
  dsimp only
  rw [haccept]
  cases death with
  | unaccepted => exact .inl ⟨rfl, rfl⟩
  | files reached =>
    obtain ⟨read, hread, hleft⟩ := left_files hjournal hrecords hunseen hcons now reached
    refine .inr ⟨read, hleft, iff_of_true ?_ trivial, hnew read⟩
    rw [← haccepted.about]
    rcases hread with rfl | rfl
    · rw [already_eq_any hcons] at hunseen
      rw [hcons, recovered_of_unseen hunseen]
      rfl
    · rw [hcons, recovered_of_seen (by simp)]
      rfl
  | stream written =>
    refine .inr ⟨_, left_stream hjournal hrecords hunseen written, ?_, hnew _⟩
    rw [← haccepted.about]
    exact recovered_cut_iff hunseen hcons written

theorem commits_journal_recover (disk : Disk ByteArray) (commit : PendingCommit)
    (now : OffsetDateTime) : ((disk.recover now).journal commit now).commits =
      (∅ : BTreeMap Nat PendingCommit).insert now.natAbs commit := by
  rw [Disk.journal, commits_recover]

theorem recover_append (hpayloads : request.checkPayloads size = .ok ())
    (haccept : (disk.recover now).accept binding execution request now = .inr commit)
    (later : OffsetDateTime) : (disk.append binding size execution request now).2.recover later =
      ((disk.recover now).journal commit now).finish (now.natAbs, commit) now := by
  have hdone : (disk.append binding size execution request now).2 =
      ((disk.recover now).journal commit now).finish (now.natAbs, commit) now := by
    rw [Disk.append, hpayloads]
    dsimp only
    rw [haccept]
    rfl
  rw [hdone, recover_of_empty]
  show (((disk.recover now).journal commit now).apply commit now).commits.erase now.natAbs = ∅
  rw [commits_apply, commits_journal_recover]
  apply ExtTreeMap.ext_getElem?
  intro k
  rw [getElem?_erase, Table.getElem?_insert]
  split <;> simp

theorem readStream_finish_journal (h : disk.Legible)
    (hrecords : ∀ record ∈ commit.records, ReadsBack record)
    (hunseen : disk.already commit = false) (now : OffsetDateTime) (at' : Nat) (e : String) :
    ((disk.journal commit now).finish (at', commit) now).readStream e =
      if commit.execution = e then disk.readStream e ++ commit.records else disk.readStream e := by
  have hunseen : (disk.journal commit now).already commit = false := hunseen
  rw [readStream_finish, (h.journalled hrecords).readStream_applyStream hrecords, hunseen]
  simp only [and_true]
  rfl

/-- **A death is atomic** exactly where recovering makes up for it. -/
theorem atomic_iff_survives (hlegible : disk.Legible)
    (hreads : disk.Readable execution request now) :
    disk.Atomic size binding execution request now death ↔
      (request.checkPayloads size = .ok () → ∀ commit,
        (disk.recover now).accept binding execution request now = .inr commit →
          (disk.recover now).Survives commit death) := by
  have hnothing : ∀ later, ReadsAs ((disk.recover now).recover later) (disk.recover later) := by
    intro later
    rw [recover_of_empty (commits_recover disk now)]
    exact readsAs_recover hlegible now later
  unfold Atomic
  cases hpayloads : request.checkPayloads size with
  | error refused =>
    simp only [die, hpayloads, reduceCtorEq, false_implies, iff_true]
    exact fun later => .inl (readsAs_recover hlegible later later)
  | ok =>
  cases haccept : (disk.recover now).accept binding execution request now with
  | inl answer =>
    simp only [die, hpayloads, haccept, reduceCtorEq, false_implies, implies_true, iff_true]
    exact fun later => .inl (hnothing later)
  | inr commit =>
  have haccepted := accepted_of_accept haccept
  have hrecords := hreads.of_accepted haccepted
  simp only [forall_const, Sum.inr.injEq, forall_eq']
  rcases left_died hlegible hreads hpayloads haccept death with
    ⟨rfl, hdied⟩ | ⟨read, hleft, hwhole, hnew⟩
  · rw [hdied]
    exact iff_of_true (fun later => .inl (hnothing later)) trivial
  have hrecovered := hleft.recover hrecords (commits_journal_recover disk commit now)
  have hwritten := readStream_finish_journal (hlegible.recover now) hrecords
    haccepted.already_eq_false now now.natAbs
  simp only [recover_append hpayloads haccept]
  rw [← hwhole]
  refine ⟨fun hatomic => ?_, fun hwhole later => .inr ⟨fun e => ?_, (hrecovered later).1⟩⟩
  · have hown := (hrecovered now).2.1
    rw [haccepted.about] at hown
    rcases hatomic now with hbefore | hafter
    · exact absurd (hown.symm.trans (hbefore.streams execution)) hnew
    · rw [← hown, hafter.streams execution, hwritten, if_pos haccepted.about]
  · rw [hwritten]
    by_cases he : commit.execution = e
    · subst he
      rw [if_pos rfl, (hrecovered later).2.1, hwhole, haccepted.about]
    · rw [if_neg he, (hrecovered later).2.2 e (Ne.symm he)]
      rfl

/-! ## Histories -/

theorem Legible.append (h : disk.Legible) (hreads : disk.Readable execution request now)
    (size : WorkflowMessage → Nat) (binding : ScopeBinding) :
    (disk.append binding size execution request now).2.Legible := by
  unfold Disk.append
  split
  · exact h
  · dsimp only
    split
    · exact h.recover now
    · rename_i commit haccept
      have hrecords := hreads.of_accepted (accepted_of_accept haccept)
      exact (apply_keeps (legible_stage hrecords) ((h.recover now).journalled hrecords)).erase _

theorem Legible.die (h : disk.Legible) (hreads : disk.Readable execution request now)
    (size : WorkflowMessage → Nat) (binding : ScopeBinding) (death : Death) :
    (disk.die size binding execution request now death).Legible := by
  cases hpayloads : request.checkPayloads size with
  | error refused => simpa only [Disk.die, hpayloads] using h
  | ok =>
  cases haccept : (disk.recover now).accept binding execution request now with
  | inl answer => simpa only [Disk.die, hpayloads, haccept] using h.recover now
  | inr commit =>
  rcases left_died h hreads hpayloads haccept death with ⟨-, hdied⟩ | ⟨read, hleft, -⟩
  · rw [hdied]
    exact h.recover now
  · exact hleft.legible

theorem Legible.perform (h : disk.Legible) (size : WorkflowMessage → Nat) (binding : ScopeBinding)
    {op : Operation} (hreads : ∀ execution request now, op = .append execution request now →
      disk.Readable execution request now) : (op.perform size disk binding).2.Legible := by
  have hwrote := wrote_perform size binding disk op
  generalize (op.perform size disk binding).2 = after at hwrote ⊢
  cases hwrote with
  | nothing => exact h
  | append => exact h.append (hreads _ _ _ rfl) size binding
  | @prune before limit visits =>
    refine ⟨fun e file hfile => ?_, h.journal⟩
    refine h.files e file ?_
    have hleft : (Table.dropAll disk.streams ((disk.doomed binding before limit visits).map
      (·.executionId)))[e]? = some file := hfile
    rw [getElem?_dropAll] at hleft
    split at hleft
    · cases hleft
    · exact hleft
  | _ => exact ⟨h.files, h.journal⟩

end Dying

/-- What becomes of a store: an operation through a handle, an append its process dies in, or
another process that opens it. -/
inductive Fate where
  | operation (binding : ScopeBinding) (op : Operation)
  | died (binding : ScopeBinding) (execution : String) (request : AppendRequest)
      (now : OffsetDateTime) (death : Death)
  | reopened (now : OffsetDateTime)

/-- A store's life. -/
def life [Serde] (size : WorkflowMessage → Nat) : Machine (Disk ByteArray) Fate Empty where
  step disk
    | .operation binding op => some ([], (op.perform size disk binding).2)
    | .died binding execution request now death =>
      some ([], disk.die size binding execution request now death)
    | .reopened now => some ([], disk.reopen now)

/-- What is appended, if anything is, reads back. -/
def Fate.Readable [Serde] (disk : Disk ByteArray) : Fate → Prop
  | .operation _ (.append execution request now) => disk.Readable execution request now
  | .died _ execution request now _ => disk.Readable execution request now
  | _ => True

theorem legible_after [Serde] {size : WorkflowMessage → Nat} {start : Disk ByteArray}
    (hstart : start.Legible) {past : List Fate}
    (hpast : ∀ st ∈ (life size).run start past, st.input.Readable st.before) :
    ((life size).last start past).Legible := by
  refine Machine.accum_run (M := life size) (h := []) (fun _ disk => disk.Legible)
    (fun disk fate => fate.Readable disk) (fun _ disk fate out after h hreads hstep => ?_) hstart
    hpast
  cases fate with
  | operation binding op =>
    cases hstep
    refine h.perform size binding fun execution request now hop => ?_
    subst hop
    exact hreads
  | died binding execution request now death =>
    cases hstep
    exact h.die hreads size binding death
  | reopened now =>
    cases hstep
    exact ⟨(h.recover now).files, (h.recover now).journal⟩

end Disk

/-! ## Crash atomicity -/

/-- **Atomic where the death survives.**  After any life of a store, of an append whose
process dies anywhere, recovering leaves what was to be read before or what the whole append
leaves, exactly where it makes up for the death. -/
theorem crash_is_atomic_iff [Serde] (size : WorkflowMessage → Nat) (start : Disk ByteArray)
    (past : List Disk.Fate) (binding : ScopeBinding) (execution : String) (request : AppendRequest)
    (now : OffsetDateTime) (death : Death) (hstart : start.Legible)
    (hpast : ∀ st ∈ (Disk.life size).run start past, st.input.Readable st.before)
    (hreads : ((Disk.life size).last start past).Readable execution request now) :
    ((Disk.life size).last start past).Atomic size binding execution request now death ↔
      (request.checkPayloads size = .ok () → ∀ commit,
        (((Disk.life size).last start past).recover now).accept binding execution request now =
            .inr commit →
          (((Disk.life size).last start past).recover now).Survives commit death) :=
  Disk.atomic_iff_survives (Disk.legible_after hstart hpast) hreads

/-! ## An append, cut -/

/-- Records by their ids: each text names the one of these records it stands for. -/
def named (records : List RecordedMessage) : LineCodec RecordedMessage where
  encode record := '\x7b' :: record.metadata.messageId.toList ++ ['\x7d']
  decode text := records.find? fun record =>
    '\x7b' :: record.metadata.messageId.toList ++ ['\x7d'] == text

theorem reads_named {records : List RecordedMessage}
    (hnodup : (records.map fun record => record.metadata.messageId).Nodup)
    (hlines : ∀ record ∈ records, '\n' ∉ record.metadata.messageId.toList) :
    ∀ record ∈ records, (named records).Reads record := by
  intro record hmem
  have hfound : ∀ others : List RecordedMessage,
      (others.map fun record => record.metadata.messageId).Nodup → record ∈ others →
        (others.find? fun other => '\x7b' :: other.metadata.messageId.toList ++ ['\x7d'] ==
          '\x7b' :: record.metadata.messageId.toList ++ ['\x7d']) = some record := by
    intro others hnodup hmem
    induction others with
    | nil => cases hmem
    | cons other others ih =>
      rw [map_cons, nodup_cons] at hnodup
      rcases mem_cons.mp hmem with rfl | hmem
      · simp
      · have hother : ¬ other.metadata.messageId = record.metadata.messageId := fun heq =>
          hnodup.1 (heq ▸ mem_map_of_mem hmem)
        rw [find?_cons_of_neg (by simpa [String.toList_inj] using hother), ih hnodup.2 hmem]
  exact
    { decode := hfound records hnodup hmem
      oneLine := by simp [named, hlines record hmem]
      starts := ⟨_, _, rfl, by decide⟩
      ends := ⟨_, _, rfl, by decide⟩ }

/-- The append that starts a run of one step. -/
def startOfRun : AppendRequest := appendBehind [] (startOf (planOf [workerStep "work"] [])) "start"

section Cut

local instance : Serde where
  codec := named (numbered 0 0 startOfRun.messages)

theorem readsBack_startOfRun : ∀ record ∈ numbered 0 0 startOfRun.messages, ReadsBack record :=
  reads_named (by decide +kernel) (by decide +kernel)

theorem recover_new (now : OffsetDateTime) :
    (Disk.new : Disk ByteArray).recover now = Disk.new :=
  Disk.recover_of_empty rfl now

theorem readable_startOfRun : (Disk.new : Disk ByteArray).Readable "run" startOfRun 0 := by
  unfold Disk.Readable
  rw [recover_new]
  exact readsBack_startOfRun

theorem started_again_is_atomic :
    ((Disk.life fun _ => 0).last Disk.new
      [.died .global "run" startOfRun 0 .unaccepted]).Atomic (fun _ => 0) .global "run" startOfRun 0
        (.files 2) := by
  have hnew : (Disk.life fun _ => 0).last Disk.new
      [.died .global "run" startOfRun 0 .unaccepted] = Disk.new := by
    rw [Machine.last_cons_some rfl]
    show (Disk.new : Disk ByteArray).die (fun _ => 0) .global "run" startOfRun 0 .unaccepted = _
    unfold Disk.die
    split
    · rfl
    · dsimp only
      split <;> exact recover_new 0
  refine (crash_is_atomic_iff (fun _ => 0) Disk.new [.died .global "run" startOfRun 0 .unaccepted]
    .global "run" startOfRun 0 (.files 2) Disk.legible_new ?_ ?_).mpr fun _ _ _ => trivial
  · rw [Machine.run_cons_some rfl]
    simp only [Machine.run, List.mem_singleton, forall_eq]
    exact readable_startOfRun
  · rw [hnew]
    exact readable_startOfRun

theorem accepts_startOfRun : startOfRun.checkPayloads (fun _ => 0) = .ok () ∧
    ∃ commit, ((Disk.new : Disk ByteArray).recover 0).accept .global "run" startOfRun 0 =
      .inr commit := by
  have haccepts : (((Disk.new : Disk ByteArray).recover 0).accept .global "run" startOfRun
      0).isRight = true := by decide +kernel
  exact ⟨by decide +kernel, Sum.isRight_iff.mp haccepts⟩

/-- **A part of an append stays**: the process dies when the first of the three lines of the
append that starts a run is written. -/
theorem part_of_an_append_stays :
    ¬ (Disk.new : Disk ByteArray).Atomic (fun _ => 0) .global "run" startOfRun 0
      (.stream (Serde.codec.write ((numbered 0 0 startOfRun.messages).take 1)).size) := by
  obtain ⟨hpayloads, commit, haccept⟩ := accepts_startOfRun
  have hrecords : commit.records = numbered 0 0 startOfRun.messages := by
    rw [(Disk.accepted_of_accept haccept).records, recover_new]
    rfl
  have hlong : 1 < (numbered 0 0 startOfRun.messages).length := by decide +kernel
  rw [← hrecords] at hlong ⊢
  rw [Disk.atomic_iff_survives Disk.legible_new readable_startOfRun]
  exact fun h => Disk.not_survives_first hlong (h hpayloads commit haccept)

end Cut

end Aiwatcher.Store
