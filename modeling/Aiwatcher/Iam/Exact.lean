import Aiwatcher.Iam.Exported

/-!
# Aiwatcher.Iam.Exact

What a completed export says, and what is read from it page by page.
-/

namespace Aiwatcher.Iam

open Library Refusal Jobs List

/-! ## Reading shards -/

/-- An entry that is read from what is written of it: some bytes without a line break. -/
structure Formats.Reads (formats : Formats) (entry : AuditEntry) : Prop where
  decode : formats.decode (formats.encode entry) = .ok entry
  oneLine : 10 ∉ formats.encode entry
  something : formats.encode entry ≠ []

section

variable {formats : Formats} {entries staged : List AuditEntry}

theorem splitOn_shardBytes (h : ∀ entry ∈ staged, formats.Reads entry) :
    (shardBytes formats staged).splitOn 10 = staged.map formats.encode ++ [[]] := by
  induction staged with
  | nil => rfl
  | cons entry staged ih =>
    rw [forall_mem_cons] at h
    have hcons : shardBytes formats (entry :: staged) =
        formats.encode entry ++ 10 :: shardBytes formats staged := by
      simp [shardBytes]
    rw [hcons, splitOn_append_cons_self, splitOn_eq_singleton h.1.oneLine, ih h.2]
    rfl

theorem takeLines_eq (key : Nat → String) (offset limit index : Nat)
    (h : ∀ entry ∈ staged, formats.Reads entry) (before : List AuditEntry) :
    takeLines formats key offset limit index (staged.map formats.encode ++ [[]]) before.length
        (window offset limit before) =
      .ok ((before ++ staged).length, window offset limit (before ++ staged)) := by
  induction staged generalizing before with
  | nil => simp [takeLines]
  | cons entry staged ih =>
    rw [forall_mem_cons] at h
    have hsome : (formats.encode entry).isEmpty = false := by simp [h.1.something]
    have hnext := ih h.2 (before ++ [entry])
    rw [window_concat, length_append, length_singleton, append_assoc, singleton_append] at hnext
    rw [map_cons, cons_append, takeLines, hsome, h.1.decode]
    by_cases hshows : offset ≤ before.length ∧ (window offset limit before).length < limit
    · rw [if_pos hshows] at hnext
      simpa [hshows] using hnext
    · rw [if_neg hshows] at hnext
      simpa [hshows] using hnext

theorem takeShards_eq (key : Nat → String) (offset limit width : Nat)
    {objects : BTreeMap Nat Bytes} (h : ∀ entry ∈ entries, formats.Reads entry) (n first : Nat)
    (hstored : ∀ i < first + n, objects[i]? = some (shardBytes formats (chunk width entries i))) :
    takeShards formats key offset limit objects
        ((List.range' first n).map (shardRef formats width entries))
        (entries.take (first * width)).length
        (window offset limit (entries.take (first * width))) =
      .ok (window offset limit (entries.take ((first + n) * width))) := by
  induction n generalizing first with
  | zero => rfl
  | succ n ih =>
    have hrest := ih (first + 1) (fun i hi => hstored i (by omega))
    have hnext := take_succ_chunk width entries first
    rw [show first + 1 + n = first + (n + 1) by omega] at hrest
    rw [range'_succ, map_cons, takeShards]
    have hseen : (entries.take (first * width)).length +
        (shardRef formats width entries first).rows =
          (entries.take ((first + 1) * width)).length := by
      rw [hnext, length_append]
      rfl
    rw [hseen]
    split
    · rename_i hbefore
      rw [window_of_length_le hbefore] at hrest
      rw [window_of_length_le (by omega)]
      exact hrest
    · have hreads : ∀ entry ∈ chunk width entries first, formats.Reads entry := by
        intro entry hentry
        exact h entry (mem_of_mem_drop (mem_of_mem_take hentry))
      have hlines := takeLines_eq key offset limit first hreads (entries.take (first * width))
      rw [← hnext] at hlines
      have hindex : (shardRef formats width entries first).index = first := rfl
      rw [hindex, hstored first (by omega)]
      dsimp only
      rw [splitOn_shardBytes hreads, hlines]
      dsimp only
      split
      · rename_i hfull
        have hall : entries.take ((first + (n + 1)) * width) =
            entries.take ((first + 1) * width) ++
              (entries.drop ((first + 1) * width)).take (n * width) := by
          rw [← take_add, ← Nat.add_mul]
          congr 2
          omega
        rw [hall, window_append_of_full hfull]
      · exact hrest

end

/-! ## The export -/

def AuditExportJob.pinned (job : AuditExportJob) : Pinned where
  requestDigest := job.requestDigest
  afterSequence := job.afterSequence
  throughSequence := job.throughSequence

/-- The entries of a trail that are asked for. -/
def exportRange (pinned : Pinned) (trail : List AuditEntry) : List AuditEntry :=
  trail.filter fun entry => pinned.afterSequence < entry.sequence &&
    entry.sequence ≤ pinned.throughSequence

theorem ranged_exportRange (pinned : Pinned) {trail : List AuditEntry}
    (h : Ascending (·.sequence) trail) : Ranged pinned (exportRange pinned trail) where
  ascending := List.Pairwise.sublist filter_sublist h
  since entry hentry := by
    have h := (mem_filter.mp hentry).2
    simp only [Bool.and_eq_true, decide_eq_true_eq] at h
    exact h.1
  through entry hentry := by
    have h := (mem_filter.mp hentry).2
    simp only [Bool.and_eq_true, decide_eq_true_eq] at h
    exact h.2

/-- The shards that some entries make. -/
def exportShards (formats : Formats) (width : Nat) (entries : List AuditEntry) : List ShardRef :=
  (List.range (chunkCount width entries)).map (shardRef formats width entries)

/-- A completed export, exact: its shards are what some entries make, each stored under its
digest; together with what is missing they are the whole range; and any page of them reads as
that page of the entries. -/
structure Exact (formats : Formats) (width : Nat) (pinned : Pinned) (entries : List AuditEntry)
    (objects : BTreeMap Nat Bytes) (job : AuditExportJob) : Prop where
  shards : job.shards = exportShards formats width entries
  chunks : (List.range (chunkCount width entries)).flatMap (chunk width entries) = entries
  stored : ∀ i < chunkCount width entries,
    objects[i]? = some (shardBytes formats (chunk width entries i))
  counted : job.counts.entries = entries.length
  missing : job.counts.entries + job.counts.missing =
    (pinned.throughSequence - pinned.afterSequence).toNat
  version : job.version = some (versionOf formats.digest pinned.requestDigest
    (exportShards formats width entries))
  rows : ∀ offset limit, 0 < limit → limit ≤ MAX_ROW_PAGE →
    rows formats job objects offset limit = .ok {
      entries := window offset limit entries
      nextOffset :=
        if offset + (window offset limit entries).length < entries.length then
          some (offset + (window offset limit entries).length)
        else none
      total := entries.length }

theorem Done.exact {formats : Formats} {width : Nat} (hwidth : 0 < width) {pinned : Pinned}
    {entries : List AuditEntry} (hranged : Ranged pinned entries)
    (hreads : ∀ entry ∈ entries, formats.Reads entry) {objects : BTreeMap Nat Bytes}
    {job : AuditExportJob} {k : Nat} (h : Done formats width entries pinned objects job k) :
    Exact formats width pinned entries objects job := by
  have hk := eq_chunkCount hwidth h.all h.full
  have hshards : job.shards = exportShards formats width entries := by
    rw [h.shards, hk]
    rfl
  have hcounted : job.counts.entries = entries.length := by
    rw [h.counted, take_of_length_le h.all]
  have hstored := h.stored
  have hall := h.all
  rw [hk] at hstored hall
  exact {
    shards := hshards
    chunks := by rw [flatMap_chunk, take_of_length_le hall]
    stored := hstored
    counted := hcounted
    missing := by
      have hle := length_le_of_ascending hranged.ascending
        fun entry hentry => ⟨hranged.since entry hentry, hranged.through entry hentry⟩
      rw [hcounted, h.missing]
      omega
    version := by rw [h.version, hshards]
    rows := by
      intro offset limit hpos hmax
      have hread := takeShards_eq (formats.shardKey job.organization job.jobId) offset limit width
        hreads (chunkCount width entries) 0 (fun i hi => hstored i (by omega))
      rw [Nat.zero_add, Nat.zero_mul, take_zero, take_of_length_le hall,
        ← range_eq_range'] at hread
      have hshown : takeShards formats (formats.shardKey job.organization job.jobId) offset limit
          objects job.shards 0 [] = .ok (window offset limit entries) := by
        rw [hshards, ← hread, window_of_length_le (by simp)]
        rfl
      have hnone : ¬(limit = 0 ∨ MAX_ROW_PAGE < limit) := by omega
      simp [Aiwatcher.Iam.rows, refuseIf, hnone, h.done, hshown, hcounted] }

/-- **A completed export is exact.**  Whatever workers ran the job, were cancelled, failed and
crashed, as long as each trail they read held the same entries in the range: what the completed
job says, shards and version included, is a function of these entries. -/
theorem audit_export_exact (adapter : Adapter) (formats : Formats) {PAGE SHARD_ENTRIES : Nat}
    (hpage : 0 < PAGE) {jobId : String} {organization : OrganizationId}
    {request : AuditExportRequest} {requestDigest : String} {throughSequence : Int}
    {actor : Principal} {now : OffsetDateTime} {job : AuditExportJob}
    (hjob : job = .create jobId organization request requestDigest throughSequence actor now)
    {trail : List AuditEntry} (htrail : Ascending (·.sequence) trail)
    (hreads : ∀ entry ∈ exportRange job.pinned trail, formats.Reads entry)
    {turns : List (Turn JobParty AuditAnswer)}
    (hunchanged : ∀ turn ∈ turns,
      turn.Admits (AuditAnswer.Holds job.pinned (exportRange job.pinned trail))) :
    ∀ st ∈ (parties (auditExport adapter formats PAGE SHARD_ENTRIES)).run (World.idle job ∅)
        turns,
      st.after.record.state = .completed →
        Exact formats (wholePages PAGE SHARD_ENTRIES) job.pinned (exportRange job.pinned trail)
          st.after.side st.after.record := by
  intro st hst hdone
  have hranged := ranged_exportRange job.pinned htrail
  have hnew : Good formats (wholePages PAGE SHARD_ENTRIES) (exportRange job.pinned trail)
      job.pinned ∅ job :=
    ⟨0, .inl {
      requestDigest := rfl
      afterSequence := rfl
      throughSequence := rfl
      shards := by simp [hjob, AuditExportJob.create]
      full := by simp
      stored := by simp
      counted := by simp [hjob, AuditExportJob.create]
      cursor := by simp [hjob, AuditExportJob.create, AuditExportJob.pinned, cursorAt_zero]
      going := by simp [hjob, AuditExportJob.create] }⟩
  have hkept := keeps_run
    (auditExport_keeps adapter formats PAGE SHARD_ENTRIES hpage hranged) hnew hunchanged st hst
  obtain ⟨k, hgoing | hexact⟩ := hkept.2.record
  · exact absurd hdone hgoing.going
  · have hwidth : 0 < wholePages PAGE SHARD_ENTRIES := by
      have hspec := (wholePages_spec hpage SHARD_ENTRIES).1
      omega
    exact hexact.exact hwidth hranged hreads

/-! ## An export that crashed -/

def foundedEntry : AuditEntry where
  sequence := 1
  organization := ⟨1⟩
  actor := founder
  occurredAt := 10
  action := .organizationCreated ⟨⟨1⟩, "Workshop"⟩

def revokedEntry : AuditEntry where
  sequence := 2
  organization := ⟨1⟩
  actor := founder
  occurredAt := 20
  action := .invitationRevoked ⟨2⟩

def foundedText : String :=
  "\x7b\"sequence\":1,\"organization\":\"00000000-0000-0000-0000-000000000001\",\"actor\":\x7b" ++
    "\"provider\":\"https://id.example\",\"subject\":\"founder\"\x7d," ++
    "\"occurred_at\":10,\"action\":\x7b" ++
    "\"type\":\"organization_created\",\"organization\":\x7b" ++
    "\"id\":\"00000000-0000-0000-0000-000000000001\",\"name\":\"Workshop\"\x7d\x7d\x7d"

def revokedText : String :=
  "\x7b\"sequence\":2,\"organization\":\"00000000-0000-0000-0000-000000000001\",\"actor\":\x7b" ++
    "\"provider\":\"https://id.example\",\"subject\":\"founder\"\x7d," ++
    "\"occurred_at\":20,\"action\":\x7b" ++
    "\"type\":\"invitation_revoked\",\"invitation\":" ++
    "\"00000000-0000-0000-0000-000000000002\"\x7d\x7d"

def requestText : String := "434c5a89ae0e20e92dfd1c0c9e4391c19fb4536c58ced2a5092cea748a07478c"

/-- The two entries' JSON, and the digests of what is made of it. -/
def twoEntries : Formats where
  encode entry := if entry = foundedEntry then foundedText.toUTF8.toList
    else revokedText.toUTF8.toList
  decode bytes :=
    if bytes = foundedText.toUTF8.toList then .ok foundedEntry
    else if bytes = revokedText.toUTF8.toList then .ok revokedEntry
    else .error "expected value at line 1 column 1"
  digest bytes :=
    if bytes = (foundedText ++ "\n").toUTF8.toList then
      "f7b4aeba01ca17a9d92d84f1696321ae68cf447ec18c73907ed7fc5dab8419fd"
    else if bytes = (revokedText ++ "\n").toUTF8.toList then
      "045332cd13395b2018611fceb7946fd3e9b6364c6c06636c9ec0a33a3b2a6e95"
    else "9683ffd7067d09413a02ec5d6050209ac9160a76f9b1fb09e034be19c6485e1b"
  shardKey _ jobId index := jobId ++ "/" ++ index.repr

/-- What the trail holds. -/
def twoRecorded : AuditedOrganization where
  state := founded
  audit := [foundedEntry, revokedEntry]
  watermark := none

def goOn (name : String) (now : OffsetDateTime) : Turn JobParty AuditAnswer :=
  .go (.worker name) ⟨now, .ok twoRecorded⟩

/-- A worker that is gone after its first shard, and one that takes the job over. -/
def crashedExport : List (Turn JobParty AuditAnswer) :=
  [.enter (.worker "pod-1"), goOn "pod-1" 1, goOn "pod-1" 2, goOn "pod-1" 3, goOn "pod-1" 4,
    goOn "pod-1" 5, .crash (.worker "pod-1"), .enter (.worker "pod-2")] ++
  (List.replicate 12 (goOn "pod-2" 400000000000))

def exportedJob : AuditExportJob :=
  .create "be4dd1404444cea4868352bc37dd2f6bf9cd654be8c95a04dc1f727464f16bd4" ⟨1⟩ ⟨"", 0⟩
    requestText 2 founder 0

theorem reads_twoEntries :
    ∀ entry ∈ exportRange exportedJob.pinned twoRecorded.audit, twoEntries.Reads entry := by
  have hrange : exportRange exportedJob.pinned twoRecorded.audit =
      [foundedEntry, revokedEntry] := by decide +kernel
  have hentry : revokedEntry ≠ foundedEntry := by decide +kernel
  have htext : revokedText.toByteArray.toList ≠ foundedText.toByteArray.toList := by
    decide +kernel
  rw [hrange, forall_mem_cons, forall_mem_singleton]
  exact ⟨⟨by simp [twoEntries], by decide +kernel, by decide +kernel⟩,
    ⟨by simp [twoEntries, hentry, htext], by decide +kernel, by decide +kernel⟩⟩

theorem holds_twoRecorded (now : OffsetDateTime) :
    AuditAnswer.Holds exportedJob.pinned (exportRange exportedJob.pinned twoRecorded.audit)
      ⟨now, .ok twoRecorded⟩ := by
  rintro stored ⟨⟩
  exact ⟨by simp [Ascending, twoRecorded, foundedEntry, revokedEntry], rfl⟩

theorem audit_export_exact_crashed :
    ((parties (auditExport .memory twoEntries 1 1)).last (World.idle exportedJob ∅)
        crashedExport).record.version =
      some "9683ffd7067d09413a02ec5d6050209ac9160a76f9b1fb09e034be19c6485e1b" ∧
    ∀ st ∈ (parties (auditExport .memory twoEntries 1 1)).run (World.idle exportedJob ∅)
        crashedExport,
      st.after.record.state = .completed →
        Exact twoEntries (wholePages 1 1) exportedJob.pinned
          (exportRange exportedJob.pinned twoRecorded.audit) st.after.side st.after.record := by
  refine ⟨by decide +kernel, audit_export_exact .memory twoEntries (by decide) rfl
    (by simp [Ascending, twoRecorded, foundedEntry, revokedEntry]) reads_twoEntries ?_⟩
  intro turn hturn
  simp only [crashedExport, goOn, List.mem_append, List.mem_cons, List.mem_replicate,
    List.not_mem_nil, or_false] at hturn
  rcases hturn with (rfl | rfl | rfl | rfl | rfl | rfl | rfl | rfl) | ⟨-, rfl⟩ <;>
    first
    | trivial
    | exact holds_twoRecorded _

end Aiwatcher.Iam
