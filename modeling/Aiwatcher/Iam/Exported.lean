import Aiwatcher.Iam.Exports
import Aiwatcher.Library.Cursor

/-!
# Aiwatcher.Iam.Exported

A completed export is exact.  Shards are the chunks of the range, whoever writes them and
however often: every record of the job, and every task's, stands between two chunks.
-/

namespace Aiwatcher.Iam

open Library Refusal Jobs List

section

variable (formats : Formats) (width : Nat) (entries : List AuditEntry)

/-- What a record says of the chunk at a place. -/
def shardRef (i : Nat) : ShardRef where
  index := i
  rows := (chunk width entries i).length
  digest := formats.digest (shardBytes formats (chunk width entries i))

/-- What a job is about: fixed when it is created. -/
structure Pinned where
  requestDigest : String
  afterSequence : Int
  throughSequence : Int

/-- What the record says after `k` shards. -/
structure Between (pinned : Pinned) (objects : BTreeMap Nat Bytes) (job : AuditExportJob)
    (k : Nat) : Prop where
  requestDigest : job.requestDigest = pinned.requestDigest
  afterSequence : job.afterSequence = pinned.afterSequence
  throughSequence : job.throughSequence = pinned.throughSequence
  shards : job.shards = (List.range k).map (shardRef formats width entries)
  full : ∀ i < k, i * width < entries.length
  stored : ∀ i < k, objects[i]? = some (shardBytes formats (chunk width entries i))
  counted : job.counts.entries = (entries.take (k * width)).length

/-- A job that is not done goes on from its last shard. -/
structure Going (pinned : Pinned) (objects : BTreeMap Nat Bytes) (job : AuditExportJob) (k : Nat) :
    Prop extends Between formats width entries pinned objects job k where
  cursor : job.cursor = cursorAt (·.sequence) pinned.afterSequence entries (k * width)
  going : job.state ≠ .completed

/-- A job that is done has every shard, and says so. -/
structure Done (pinned : Pinned) (objects : BTreeMap Nat Bytes) (job : AuditExportJob) (k : Nat) :
    Prop extends Between formats width entries pinned objects job k where
  done : job.state = .completed
  all : entries.length ≤ k * width
  missing : job.counts.missing =
    (pinned.throughSequence - pinned.afterSequence).toNat - entries.length
  version : job.version = some (versionOf formats.digest pinned.requestDigest job.shards)

/-- A record that may be stored. -/
def Good (pinned : Pinned) (objects : BTreeMap Nat Bytes) (job : AuditExportJob) : Prop :=
  ∃ k, Going formats width entries pinned objects job k ∨
    Done formats width entries pinned objects job k

/-- What was read since the last shard. -/
structure Staged (pinned : Pinned) (k : Nat) (staged : List AuditEntry) (readFrom : Int) :
    Prop where
  front : staged <+: entries.drop (k * width)
  readFrom : readFrom =
    cursorAt (·.sequence) pinned.afterSequence entries (k * width + staged.length)

variable (PAGE SHARD_ENTRIES : Nat)

/-- A task that stands where a worker may stand. -/
def AuditTask.Fits (pinned : Pinned) (objects : BTreeMap Nat Bytes) : AuditTask → Prop
  | .start | .cancelStart => True
  | .claim job => ∃ k, Going formats width entries pinned objects job k
  | .page job staged readFrom => ∃ k, Going formats width entries pinned objects job k ∧
      Staged width entries pinned k staged readFrom ∧ staged.length < max SHARD_ENTRIES 1 ∧
      (PAGE ∣ staged.length ∨ staged = entries.drop (k * width))
  | .check job staged readFrom more | .shard job staged readFrom more =>
    ∃ k, Going formats width entries pinned objects job k ∧
      Staged width entries pinned k staged readFrom ∧ staged ≠ [] ∧
      staged = chunk width entries k ∧ (more = false → staged = entries.drop (k * width))
  | .record job readFrom more => ∃ k, Going formats width entries pinned objects job k ∧
      (more = true → readFrom = job.cursor) ∧ (more = false → entries.length ≤ k * width)
  | .lastCheck job => ∃ k, Going formats width entries pinned objects job k ∧
      entries.length ≤ k * width
  | .finish job | .cancel job => Good formats width entries pinned objects job

end

section

variable {formats : Formats} {width : Nat} {entries : List AuditEntry} {pinned : Pinned}
  {objects : BTreeMap Nat Bytes} {job : AuditExportJob} {k : Nat}

/-! ## Other shards -/

theorem Between.insert (h : Between formats width entries pinned objects job k) (i : Nat) :
    Between formats width entries pinned
      (objects.insert i (shardBytes formats (chunk width entries i))) job k :=
  { h with
    stored := fun j hj => by
      rw [Table.getElem?_insert]
      split
      · rename_i heq
        rw [heq]
      · exact h.stored j hj }

theorem Going.insert (h : Going formats width entries pinned objects job k) (i : Nat) :
    Going formats width entries pinned
      (objects.insert i (shardBytes formats (chunk width entries i))) job k :=
  { h with toBetween := h.toBetween.insert i }

theorem Good.insert (h : Good formats width entries pinned objects job) (i : Nat) :
    Good formats width entries pinned
      (objects.insert i (shardBytes formats (chunk width entries i))) job := by
  obtain ⟨k, hgoing | hdone⟩ := h
  · exact ⟨k, .inl (hgoing.insert i)⟩
  · exact ⟨k, .inr { hdone with toBetween := hdone.toBetween.insert i }⟩

theorem AuditTask.Fits.insert {PAGE SHARD_ENTRIES : Nat} {task : AuditTask}
    (h : task.Fits formats width entries PAGE SHARD_ENTRIES pinned objects) (i : Nat) :
    task.Fits formats width entries PAGE SHARD_ENTRIES pinned
      (objects.insert i (shardBytes formats (chunk width entries i))) := by
  cases task with
  | start | cancelStart => trivial
  | finish job => exact Good.insert h i
  | cancel job => exact Good.insert h i
  | claim job =>
    obtain ⟨k, hgoing⟩ := h
    exact ⟨k, hgoing.insert i⟩
  | page job staged readFrom =>
    obtain ⟨k, hgoing, hrest⟩ := h
    exact ⟨k, hgoing.insert i, hrest⟩
  | check job staged readFrom more =>
    obtain ⟨k, hgoing, hrest⟩ := h
    exact ⟨k, hgoing.insert i, hrest⟩
  | shard job staged readFrom more =>
    obtain ⟨k, hgoing, hrest⟩ := h
    exact ⟨k, hgoing.insert i, hrest⟩
  | record job readFrom more =>
    obtain ⟨k, hgoing, hrest⟩ := h
    exact ⟨k, hgoing.insert i, hrest⟩
  | lastCheck job =>
    obtain ⟨k, hgoing, hrest⟩ := h
    exact ⟨k, hgoing.insert i, hrest⟩

/-! ## Records -/

theorem Good.going (h : Good formats width entries pinned objects job)
    (hstate : job.state ≠ .completed) :
    ∃ k, Going formats width entries pinned objects job k := by
  obtain ⟨k, hgoing | hdone⟩ := h
  · exact ⟨k, hgoing⟩
  · exact absurd hdone.done hstate

theorem Going.claim (h : Going formats width entries pinned objects job k) (worker : String)
    (now : OffsetDateTime) :
    Going formats width entries pinned objects (job.claim worker now) k :=
  { h with going := by simp [AuditExportJob.claim] }

theorem Going.cancelled (h : Going formats width entries pinned objects job k)
    (now : OffsetDateTime) :
    Going formats width entries pinned objects (job.cancelled now) k :=
  { h with going := by simp [AuditExportJob.cancelled] }

section

variable (h : Going formats width entries pinned objects job k)

include h

theorem Going.park (error : Error) (retryable : Bool) (now : OffsetDateTime) :
    Going formats width entries pinned objects (job.park error retryable now) k :=
  { h with
    going := by
      rcases afterFailure_cases (job.attempts + 1) retryable with hstate | hstate <;>
        simp [AuditExportJob.park, hstate] }

theorem Going.complete (hall : entries.length ≤ k * width) (worker : String)
    (now : OffsetDateTime) :
    Done formats width entries pinned objects (job.complete formats worker now) k :=
  { h with
    done := rfl
    all := hall
    missing := by
      simp only [AuditExportJob.complete, AuditExportJob.range, h.afterSequence,
        h.throughSequence, h.counted, take_of_length_le hall]
    version := by
      simp only [AuditExportJob.complete, h.requestDigest] }

/-- What is staged follows what the record has passed. -/
theorem Staged.nil :
    Staged width entries pinned k [] job.cursor where
  front := nil_prefix
  readFrom := h.cursor

end

/-- A shard takes the record from one chunk to the next. -/
theorem Going.flushed (hrange : Ascending (·.sequence) entries)
    (h : Going formats width entries pinned objects job k) {staged : List AuditEntry}
    (hne : staged ≠ []) (hstaged : staged = chunk width entries k) (worker : String)
    (now : OffsetDateTime) (hsince : ∀ entry ∈ entries, pinned.afterSequence < entry.sequence) :
    Going formats width entries pinned
      (objects.insert job.shards.length (shardBytes formats staged))
      (job.flushed formats staged (shardBytes formats staged) worker now) (k + 1) := by
  have hlength : job.shards.length = k := by simp [h.shards]
  have hcursor : (job.flushed formats staged (shardBytes formats staged) worker now).cursor =
      cursorAt (·.sequence) pinned.afterSequence entries ((k + 1) * width) := by
    obtain ⟨last, hlast⟩ := getLast?_isSome.mpr hne |> Option.isSome_iff_exists.mp
    have hmem : last ∈ entries.drop (k * width) := by
      have h := mem_of_getLast? hlast
      rw [hstaged] at h
      exact mem_of_mem_take h
    have hup := cursorAt_lt_of_mem_drop hrange hsince hmem
    rw [← h.cursor] at hup
    have hat : cursorAt (·.sequence) pinned.afterSequence entries (k * width + width) =
        last.sequence := cursorAt_add (by rw [← hlast, hstaged, chunk])
    rw [Nat.succ_mul, hat]
    simp only [AuditExportJob.flushed, hlast, Option.map_some, Option.getD_some]
    omega
  exact {
    requestDigest := h.requestDigest
    afterSequence := h.afterSequence
    throughSequence := h.throughSequence
    shards := by
      simp only [AuditExportJob.flushed, hlength]
      rw [h.shards, range_succ, map_append, hstaged]
      rfl
    full := by
      intro i hi
      rcases Nat.lt_succ_iff_lt_or_eq.mp hi with hi | rfl
      · exact h.full i hi
      · by_contra hle
        apply hne
        rw [hstaged, chunk, drop_of_length_le (by omega), take_nil]
    stored := by
      intro i hi
      rw [hlength, hstaged]
      rcases Nat.lt_succ_iff_lt_or_eq.mp hi with hi | rfl
      · exact (h.toBetween.insert k).stored i hi
      · exact Std.ExtTreeMap.getElem?_insert_self
    counted := by
      simp only [AuditExportJob.flushed]
      rw [h.counted, take_succ_chunk, length_append, hstaged]
    cursor := hcursor
    going := h.going }

/-! ## The loop -/

/-- The range of a trail that is exported. -/
structure Ranged (pinned : Pinned) (entries : List AuditEntry) : Prop where
  ascending : Ascending (·.sequence) entries
  since : ∀ entry ∈ entries, pinned.afterSequence < entry.sequence
  through : ∀ entry ∈ entries, entry.sequence ≤ pinned.throughSequence

variable {PAGE SHARD_ENTRIES : Nat} {staged : List AuditEntry} {readFrom : Int}

theorem afterLoop_fits (hpage : 0 < PAGE)
    (hgoing : Going formats (wholePages PAGE SHARD_ENTRIES) entries pinned objects job k)
    (hstaged : Staged (wholePages PAGE SHARD_ENTRIES) entries pinned k staged readFrom)
    (hlength : staged.length < max SHARD_ENTRIES 1)
    (hrest : staged = entries.drop (k * wholePages PAGE SHARD_ENTRIES)) :
    (afterLoop job staged readFrom).Fits formats (wholePages PAGE SHARD_ENTRIES) entries PAGE
      SHARD_ENTRIES pinned objects := by
  unfold afterLoop
  split
  · rename_i hempty
    rw [List.isEmpty_iff] at hempty
    refine ⟨k, hgoing, ?_⟩
    rw [hempty] at hrest
    exact drop_eq_nil_iff.mp hrest.symm
  · rename_i hne
    obtain ⟨hreach, -, -⟩ := wholePages_spec hpage SHARD_ENTRIES
    refine ⟨k, hgoing, hstaged, by simpa using hne, ?_, fun _ => hrest⟩
    rw [chunk, ← hrest, take_of_length_le (by omega)]

theorem loopHead_fits (hpage : 0 < PAGE) (hranged : Ranged pinned entries)
    (hgoing : Going formats (wholePages PAGE SHARD_ENTRIES) entries pinned objects job k)
    (hstaged : Staged (wholePages PAGE SHARD_ENTRIES) entries pinned k staged readFrom)
    (hlength : staged.length < max SHARD_ENTRIES 1)
    (hpages : PAGE ∣ staged.length ∨
      staged = entries.drop (k * wholePages PAGE SHARD_ENTRIES)) :
    (loopHead job staged readFrom).Fits formats (wholePages PAGE SHARD_ENTRIES) entries PAGE
      SHARD_ENTRIES pinned objects := by
  unfold loopHead
  split
  · exact ⟨k, hgoing, hstaged, hlength, hpages⟩
  · rename_i hend
    refine afterLoop_fits hpage hgoing hstaged hlength ?_
    -- nothing of the range is past its end
    have hnone : entries.drop (k * wholePages PAGE SHARD_ENTRIES + staged.length) = [] := by
      by_contra hne
      obtain ⟨entry, hentry⟩ := exists_mem_of_ne_nil _ hne
      have hup := cursorAt_lt_of_mem_drop hranged.ascending hranged.since hentry
      rw [← hstaged.readFrom] at hup
      have hthrough := hranged.through entry (mem_of_mem_drop hentry)
      rw [hgoing.throughSequence] at hend
      omega
    rw [prefix_iff_eq_take.mp hstaged.front]
    refine take_of_length_le ?_
    rw [← drop_drop, drop_eq_nil_iff] at hnone
    exact hnone

theorem inRange_eq {adapter : Adapter} {trail : Except Error AuditedOrganization}
    {actor : Principal} {page : List AuditEntry}
    (htrail : ∀ stored, trail = .ok stored → Ascending (·.sequence) stored.audit ∧
      (stored.audit.filter fun entry => pinned.afterSequence < entry.sequence &&
        entry.sequence ≤ pinned.throughSequence) = entries)
    {n : Nat} (hfrom : readFrom = cursorAt (·.sequence) pinned.afterSequence entries n)
    (hpage : audit adapter trail actor readFrom PAGE = .ok page) :
    0 < PAGE ∧ (page.filter fun entry => entry.sequence ≤ pinned.throughSequence) =
      (entries.drop n).take PAGE := by
  simp only [audit, except_bind_ok_iff, exists_unit_iff, except_refuseIf_ok_iff, not_or] at hpage
  obtain ⟨⟨-, hpos, -⟩, stored, hstored, -, hpage⟩ := hpage
  obtain ⟨hup, hentries⟩ := htrail stored hstored
  have hordered : stored.ordered adapter = stored.audit := by
    cases adapter with
    | memory => rfl
    | postgres =>
      refine mergeSort_of_pairwise (hup.imp fun hlt => ?_)
      simpa using Int.le_of_lt hlt
  rw [hordered, hfrom] at hpage
  cases hpage
  exact ⟨Nat.pos_of_ne_zero hpos, page_eq hup hentries n PAGE⟩

theorem pageRead_fits {adapter : Adapter} {answer : AuditAnswer} (hranged : Ranged pinned entries)
    (htrail : ∀ stored, answer.trail = .ok stored → Ascending (·.sequence) stored.audit ∧
      (stored.audit.filter fun entry => pinned.afterSequence < entry.sequence &&
        entry.sequence ≤ pinned.throughSequence) = entries)
    (hgoing : Going formats (wholePages PAGE SHARD_ENTRIES) entries pinned objects job k)
    (hstaged : Staged (wholePages PAGE SHARD_ENTRIES) entries pinned k staged readFrom)
    (hlength : staged.length < max SHARD_ENTRIES 1)
    (hpages : PAGE ∣ staged.length ∨
      staged = entries.drop (k * wholePages PAGE SHARD_ENTRIES)) :
    (pageRead adapter PAGE SHARD_ENTRIES job staged readFrom answer).Fits formats
      (wholePages PAGE SHARD_ENTRIES) entries PAGE SHARD_ENTRIES pinned objects := by
  unfold pageRead
  split
  · exact ⟨k, .inl (hgoing.park _ _ _)⟩
  · rename_i page hpage
    obtain ⟨hpos, hrange⟩ := inRange_eq htrail hstaged.readFrom hpage
    dsimp only
    rw [hgoing.throughSequence, hrange]
    set first := k * wholePages PAGE SHARD_ENTRIES
    set next := (entries.drop (first + staged.length)).take PAGE with hnext
    have hsplit : entries.drop first =
        staged ++ entries.drop (first + staged.length) := by
      rw [← drop_drop]
      conv_lhs => rw [← take_append_drop staged.length (entries.drop first)]
      rw [← prefix_iff_eq_take.mp hstaged.front]
    split
    · rename_i hnone
      rw [getLast?_eq_none_iff] at hnone
      refine afterLoop_fits hpos hgoing hstaged hlength ?_
      have hover : entries.drop (first + staged.length) = [] := by
        rw [hnext, take_eq_nil_iff] at hnone
        exact hnone.resolve_left (by omega)
      rw [hsplit, hover, append_nil]
    · rename_i last hlast
      have hstaged' : Staged (wholePages PAGE SHARD_ENTRIES) entries pinned k (staged ++ next)
          last.sequence := by
        constructor
        · rw [hsplit]
          exact prefix_append_right_inj _ |>.mpr ( take_prefix _ _)
        · rw [length_append, ← Nat.add_assoc]
          refine (cursorAt_add ?_).symm
          have hfront : next <+: entries.drop (first + staged.length) := take_prefix _ _
          rw [← prefix_iff_eq_take.mp hfront]
          exact hlast
      -- the page before was whole, or there would be nothing more to read
      have hwhole : PAGE ∣ staged.length := by
        refine hpages.resolve_right fun hall => ?_
        have hover : entries.drop (first + staged.length) = [] := by
          rw [hall, drop_eq_nil_iff, length_drop]
          omega
        rw [hnext, hover] at hlast
        simp at hlast
      have hfull : next.length = PAGE ∨ staged ++ next = entries.drop first := by
        by_cases hlen : PAGE ≤ (entries.drop (first + staged.length)).length
        · exact .inl (by rw [hnext, length_take, Nat.min_eq_left hlen])
        · exact .inr (by rw [hsplit, hnext, take_of_length_le (by omega)])
      split
      · rename_i hreach
        refine ⟨k, hgoing, hstaged', ?_, ?_, by simp⟩
        · intro hnil
          rw [append_eq_nil_iff.mp hnil |>.2] at hlast
          cases hlast
        · have hmin : next.length ≤ PAGE := length_take_le _ _
          rw [length_append] at hreach
          have hwidth := eq_wholePages hpos hwhole hlength (by omega)
          have hchunk : chunk (wholePages PAGE SHARD_ENTRIES) entries k =
              (entries.drop first).take (staged.length + PAGE) := by rw [hwidth, chunk]
          rw [hchunk, hsplit, take_length_add_append]
      · rename_i hshort
        refine loopHead_fits hpos hranged hgoing hstaged' (by omega) ?_
        rcases hfull with hfull | hfull
        · exact .inl (by rw [length_append, hfull]; exact Nat.dvd_add_self_right.mpr hwhole)
        · exact .inr hfull

/-! ## Every access -/

/-- The trail that is answered holds these entries in the range. -/
def AuditAnswer.Holds (pinned : Pinned) (entries : List AuditEntry) (answer : AuditAnswer) : Prop :=
  ∀ stored, answer.trail = .ok stored → Ascending (·.sequence) stored.audit ∧
    (stored.audit.filter fun entry => pinned.afterSequence < entry.sequence &&
      entry.sequence ≤ pinned.throughSequence) = entries

theorem auditExport_keeps (adapter : Adapter) (formats : Formats) (PAGE SHARD_ENTRIES : Nat)
    (hpage : 0 < PAGE) (hranged : Ranged pinned entries) :
    Keeps (auditExport adapter formats PAGE SHARD_ENTRIES) (AuditAnswer.Holds pinned entries)
      (Good formats (wholePages PAGE SHARD_ENTRIES) entries pinned)
      (fun objects _ task => task.Fits formats (wholePages PAGE SHARD_ENTRIES) entries PAGE
        SHARD_ENTRIES pinned objects) where
  begins side party := by cases party <;> trivial
  looks := by
    intro objects party task next stored answer after hfits haccess hgood _ hafter
    have hgoes (hfinished : ¬stored.state.isFinished = true) :
        ∃ k, Going formats (wholePages PAGE SHARD_ENTRIES) entries pinned objects stored k :=
      hgood.going fun hstate => by simp [hstate, JobState.isFinished] at hfinished
    cases party with
    | worker name =>
      cases task with
      | start =>
        cases haccess
        dsimp only at hafter
        split at hafter
        · cases hafter
        · rename_i hfinished
          split at hafter
          · cases hafter
          · cases hafter
            obtain ⟨k, hgoing⟩ := hgoes hfinished
            exact ⟨k, hgoing.claim name answer.now⟩
      | check job staged readFrom more =>
        cases haccess
        dsimp only at hafter
        split at hafter
        · cases hafter
        · cases hafter
          exact hfits
      | lastCheck job =>
        cases haccess
        dsimp only at hafter
        split at hafter
        · cases hafter
        · cases hafter
          obtain ⟨k, hgoing, hall⟩ := hfits
          exact ⟨k, .inr (hgoing.complete hall name answer.now)⟩
      | _ => cases haccess
    | canceller request =>
      cases task with
      | cancelStart =>
        cases haccess
        dsimp only at hafter
        split at hafter
        · cases hafter
        · rename_i hfinished
          cases hafter
          obtain ⟨k, hgoing⟩ := hgoes hfinished
          exact ⟨k, .inl (hgoing.cancelled answer.now)⟩
      | _ => cases haccess
  puts := by
    intro objects party task how stored next refused hfits haccess
    cases party with
    | worker name =>
      cases task with
      | claim job =>
        cases haccess
        obtain ⟨k, hgoing⟩ := hfits
        refine ⟨⟨k, .inl hgoing⟩, ?_, by simp⟩
        rintro after ⟨⟩
        exact loopHead_fits hpage hranged hgoing (Staged.nil hgoing) (by simp) (.inl (by simp))
      | record job readFrom more =>
        cases haccess
        obtain ⟨k, hgoing, hmore, hlast⟩ := hfits
        refine ⟨⟨k, .inl hgoing⟩, ?_, by simp⟩
        rintro after ⟨⟩
        cases more with
        | true =>
          rw [hmore rfl]
          exact loopHead_fits hpage hranged hgoing (Staged.nil hgoing) (by simp)
            (.inl (by simp))
        | false => exact ⟨k, hgoing, hlast rfl⟩
      | finish job =>
        cases haccess
        exact ⟨hfits, by simp, by simp⟩
      | _ => cases haccess
    | canceller request =>
      cases task with
      | cancel job =>
        cases haccess
        exact ⟨hfits, by simp, by simp⟩
      | _ => cases haccess
  works := by
    intro objects party task does answer hfits haccess hholds
    cases party with
    | worker name =>
      cases task with
      | page job staged readFrom =>
        cases haccess
        obtain ⟨k, hgoing, hstaged, hlength, hpages⟩ := hfits
        refine ⟨fun _ hgood => hgood, fun _ _ hfits => hfits, ?_⟩
        rintro after ⟨⟩
        exact pageRead_fits hranged hholds hgoing hstaged hlength hpages
      | shard job staged readFrom more =>
        cases haccess
        obtain ⟨k, hgoing, hstaged, hne, hchunk, hlast⟩ := hfits
        have hlength : job.shards.length = k := by simp [hgoing.shards]
        refine ⟨fun _ hgood => ?_, fun _ _ hfits => ?_, ?_⟩
        · rw [hlength, hchunk]
          exact hgood.insert k
        · rw [hlength, hchunk]
          exact AuditTask.Fits.insert hfits k
        · rintro after ⟨⟩
          have hnext :=
            hgoing.flushed hranged.ascending hne hchunk name answer.now hranged.since
          refine ⟨k + 1, hnext, fun _ => ?_, fun hmore => ?_⟩
          · rw [hnext.cursor, hstaged.readFrom, hchunk]
            exact cursorAt_congr (take_add_length_chunk _ _ _)
          · have hall := congrArg List.length (hchunk.symm.trans (hlast hmore))
            rw [chunk, length_take, length_drop] at hall
            rw [Nat.succ_mul]
            omega
      | start | check | lastCheck => cases haccess
      | claim | record | finish => cases haccess
      | cancelStart =>
        cases haccess
        exact ⟨fun _ hgood => hgood, fun _ _ hfits => hfits, by simp⟩
      | cancel job =>
        cases haccess
        exact ⟨fun _ hgood => hgood, fun _ _ hfits => hfits, by simp⟩
    | canceller request =>
      cases task with
      | cancelStart | cancel => cases haccess
      | _ =>
        cases haccess
        exact ⟨fun _ hgood => hgood, fun _ _ hfits => hfits, by simp⟩

end

end Aiwatcher.Iam
