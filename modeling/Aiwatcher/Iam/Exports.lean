import Aiwatcher.Iam.Trail
import Aiwatcher.Jobs.Model

/-!
# Aiwatcher.Iam.Exports

An organization's audit trail, frozen into shards by a job that may be cancelled, fail, crash
and go on (`export.rs`).  The record of the job is read and written whole; what a worker has
read since the last shard is its own.
-/

namespace Aiwatcher.Iam

open Library Refusal Jobs

/-- How entries are written and read, and what things are addressed by. -/
structure Formats where
  encode : AuditEntry → Bytes
  decode : Bytes → Except String AuditEntry
  digest : Bytes → String
  shardKey : OrganizationId → String → Nat → String

/-! ## The record -/

structure AuditExportRequest where
  reason : String
  afterSequence : Int
  deriving DecidableEq, Repr

structure AuditExportCounts where
  entries : Nat
  missing : Nat
  deriving DecidableEq, Repr

structure AuditExportJob where
  jobId : String
  organization : OrganizationId
  request : AuditExportRequest
  requestDigest : String
  state : JobState
  afterSequence : Int
  throughSequence : Int
  cursor : Int
  attempts : Nat
  claimedBy : String
  claimedAt : Option OffsetDateTime
  counts : AuditExportCounts
  shards : List ShardRef
  version : Option String
  error : Option String
  requestedBy : Principal
  createdAt : OffsetDateTime
  updatedAt : OffsetDateTime
  finishedAt : Option OffsetDateTime
  deriving DecidableEq, Repr

/-- `Display` of the errors a page may answer with. -/
def Error.text : Error → String
  | .notFound => "the requested IAM resource is not available to this principal"
  | .forbidden => "the operation needs a higher IAM role"
  | .lastOwner => "an organization must retain at least one owner"
  | .expired => "the invitation has expired"
  | .redeemed => "the invitation has already been redeemed"
  | .invalid message => "invalid IAM input: " ++ message
  | .conflict message => message
  | .incompatible message => "unsupported or inconsistent IAM document: " ++ message
  | .backend message => "IAM storage failed: " ++ message

def Error.isBackend : Error → Bool
  | .backend _ => true
  | _ => false

namespace AuditExportJob

variable (job : AuditExportJob)

/-- Sequences in the pinned range, whether or not the trail still holds them. -/
def range : Nat := (job.throughSequence - job.afterSequence).toNat

/-- A record as `create` writes it, its range pinned. -/
def create (jobId : String) (organization : OrganizationId) (request : AuditExportRequest)
    (requestDigest : String) (throughSequence : Int) (actor : Principal) (now : OffsetDateTime) :
    AuditExportJob where
  jobId := jobId
  organization := organization
  request := request
  requestDigest := requestDigest
  state := .queued
  afterSequence := request.afterSequence
  throughSequence := throughSequence
  cursor := request.afterSequence
  attempts := 0
  claimedBy := ""
  claimedAt := none
  counts := ⟨0, 0⟩
  shards := []
  version := none
  error := none
  requestedBy := actor
  createdAt := now
  updatedAt := now
  finishedAt := none

/-- Another worker holds a live lease. -/
def heldElsewhere (worker : String) (now : OffsetDateTime) : Bool :=
  Jobs.heldElsewhere job.state job.claimedBy job.claimedAt worker now

def claim (worker : String) (now : OffsetDateTime) : AuditExportJob :=
  { job with state := .running, claimedBy := worker, claimedAt := some now, updatedAt := now }

/-- The stored job tells this worker to stop writing to it. -/
def interrupts (worker : String) : Bool :=
  interrupted job.state job.claimedBy worker

def cancelled (now : OffsetDateTime) : AuditExportJob :=
  { job with state := .cancelled, updatedAt := now, finishedAt := some now }

/-- `flush`, after the shard is put: the shard counts, and the cursor passes it. -/
def flushed (formats : Formats) (staged : List AuditEntry) (bytes : Bytes) (worker : String)
    (now : OffsetDateTime) : AuditExportJob :=
  { job with
    shards := job.shards ++ [{
      index := job.shards.length
      rows := staged.length
      digest := formats.digest bytes }]
    counts := { job.counts with entries := job.counts.entries + staged.length }
    cursor := (staged.getLast?.map fun entry => max entry.sequence job.cursor).getD job.cursor
    updatedAt := now
    claimedBy := worker
    claimedAt := some now }

def complete (formats : Formats) (worker : String) (now : OffsetDateTime) : AuditExportJob :=
  { job with
    counts := { job.counts with missing := job.range - job.counts.entries }
    cursor := job.throughSequence
    version := some (versionOf formats.digest job.requestDigest job.shards)
    state := .completed
    error := none
    updatedAt := now
    finishedAt := some now
    claimedBy := worker }

/-- Back in the queue, or failed for good. -/
def park (error : Error) (retryable : Bool) (now : OffsetDateTime) : AuditExportJob :=
  { job with
    attempts := job.attempts + 1
    error := some error.text
    updatedAt := now
    claimedBy := ""
    claimedAt := none
    state := afterFailure (job.attempts + 1) retryable
    finishedAt :=
      if afterFailure (job.attempts + 1) retryable = .failed then some now else job.finishedAt }

end AuditExportJob

/-! ## Reading the trail -/

/-- The trail in the order it is read in. -/
def AuditedOrganization.ordered (adapter : Adapter) (stored : AuditedOrganization) :
    List AuditEntry :=
  match adapter with
  | .memory => stored.audit
  | .postgres => stored.audit.mergeSort fun a b => a.sequence ≤ b.sequence

/-- One page of the trail, for somebody who may read it. -/
def audit (adapter : Adapter) (trail : Except Error AuditedOrganization) (actor : Principal)
    (after : Int) (limit : Nat) : Except Error (List AuditEntry) := do
  refuseIf (after < 0 ∨ limit = 0 ∨ 100 < limit)
    (.invalid "audit requires after >= 0 and limit in 1..=100")
  let stored ← trail
  stored.state.authorizeAudit actor
  pure (((stored.ordered adapter).filter fun entry => after < entry.sequence).take limit)

/-! ## The worker -/

/-- What the world answers to an access: the clock, and the trail as it is. -/
structure AuditAnswer where
  now : OffsetDateTime
  trail : Except Error AuditedOrganization

/-- Where a worker or a cancellation is. -/
inductive AuditTask where
  | start
  | claim (job : AuditExportJob)
  | page (job : AuditExportJob) (staged : List AuditEntry) (readFrom : Int)
  | check (job : AuditExportJob) (staged : List AuditEntry) (readFrom : Int) (more : Bool)
  | shard (job : AuditExportJob) (staged : List AuditEntry) (readFrom : Int) (more : Bool)
  | record (job : AuditExportJob) (readFrom : Int) (more : Bool)
  | lastCheck (job : AuditExportJob)
  | finish (job : AuditExportJob)
  | cancelStart
  | cancel (job : AuditExportJob)
  deriving DecidableEq, Repr

/-- After the loop: what is staged is flushed, and then there is one more look. -/
def afterLoop (job : AuditExportJob) (staged : List AuditEntry) (readFrom : Int) : AuditTask :=
  if staged.isEmpty then .lastCheck job else .check job staged readFrom false

/-- The head of the loop. -/
def loopHead (job : AuditExportJob) (staged : List AuditEntry) (readFrom : Int) : AuditTask :=
  if readFrom < job.throughSequence then .page job staged readFrom
  else afterLoop job staged readFrom

/-- What is staged, as the bytes of a shard. -/
def shardBytes (formats : Formats) (staged : List AuditEntry) : Bytes :=
  staged.flatMap fun entry => formats.encode entry ++ [10]

section

variable (adapter : Adapter) (formats : Formats) (PAGE SHARD_ENTRIES : Nat)

/-- A page's answer: parked, or taken into the range, staged, and flushed where there is
enough of it. -/
def pageRead (job : AuditExportJob) (staged : List AuditEntry) (readFrom : Int)
    (answer : AuditAnswer) : AuditTask :=
  match audit adapter answer.trail job.requestedBy readFrom PAGE with
  | .error error => .finish (job.park error error.isBackend answer.now)
  | .ok page =>
    let inRange := page.filter fun entry => entry.sequence ≤ job.throughSequence
    match inRange.getLast? with
    | none => afterLoop job staged readFrom
    | some last =>
      if SHARD_ENTRIES ≤ (staged ++ inRange).length then
        .check job (staged ++ inRange) last.sequence true
      else loopHead job (staged ++ inRange) last.sequence

/-- `run`, one access at a time. -/
def workerAccess (worker : String) :
    AuditTask → Access AuditExportJob (BTreeMap Nat Bytes) AuditAnswer AuditTask
  | .start => .look fun stored answer =>
    if stored.state.isFinished then none
    else if stored.heldElsewhere worker answer.now then none
    else some (.claim (stored.claim worker answer.now))
  | .claim job => .put .took job (some (loopHead job [] job.cursor)) none
  | .page job staged readFrom => .work fun objects answer =>
    (objects, some (pageRead adapter PAGE SHARD_ENTRIES job staged readFrom answer))
  | .check job staged readFrom more => .look fun stored _ =>
    if stored.interrupts worker then none else some (.shard job staged readFrom more)
  | .shard job staged readFrom more => .work fun objects answer =>
    (objects.insert job.shards.length (shardBytes formats staged),
      some (.record (job.flushed formats staged (shardBytes formats staged) worker answer.now)
        readFrom more))
  | .record job readFrom more => .put .wrote job
      (some (if more then loopHead job [] readFrom else .lastCheck job)) none
  | .lastCheck job => .look fun stored answer =>
    if stored.interrupts worker then none
    else some (.finish (job.complete formats worker answer.now))
  | .finish job => .put .wrote job none none
  | _ => .work fun objects _ => (objects, none)

/-- `cancel`, one access at a time. -/
def cancelAccess : AuditTask → Access AuditExportJob (BTreeMap Nat Bytes) AuditAnswer AuditTask
  | .cancelStart => .look fun stored answer =>
    if stored.state.isFinished then none else some (.cancel (stored.cancelled answer.now))
  | .cancel job => .put .wrote job none none
  | _ => .work fun objects _ => (objects, none)

def auditExport :
    Program JobParty AuditExportJob (BTreeMap Nat Bytes) AuditAnswer AuditTask where
  begins
    | .worker _ => .start
    | .canceller _ => .cancelStart
  access
    | .worker name => workerAccess adapter formats PAGE SHARD_ENTRIES name
    | .canceller _ => cancelAccess

end

/-! ## Reading a finished export -/

structure AuditExportRowsPage where
  entries : List AuditEntry
  nextOffset : Option Nat
  total : Nat
  deriving DecidableEq, Repr

section

variable (formats : Formats) (key : Nat → String) (offset limit : Nat)

/-- The entries on some lines that a page from `offset` on takes. -/
def takeLines (index : Nat) :
    List Bytes → Nat → List AuditEntry → Except Error (Nat × List AuditEntry)
  | [], seen, entries => .ok (seen, entries)
  | line :: lines, seen, entries =>
    if line.isEmpty then takeLines index lines seen entries
    else if offset ≤ seen ∧ entries.length < limit then
      match formats.decode line with
      | .error message => .error (.incompatible (key index ++ ": " ++ message))
      | .ok entry => takeLines index lines (seen + 1) (entries ++ [entry])
    else takeLines index lines (seen + 1) entries

/-- The entries of a page, shard by shard. -/
def takeShards (objects : BTreeMap Nat Bytes) :
    List ShardRef → Nat → List AuditEntry → Except Error (List AuditEntry)
  | [], _, entries => .ok entries
  | shard :: shards, seen, entries =>
    if seen + shard.rows ≤ offset then takeShards objects shards (seen + shard.rows) entries
    else
      match objects[shard.index]? with
      | none => .error (.incompatible
          (key shard.index ++ ": a completed export is missing a shard"))
      | some bytes =>
        let lines := bytes.splitOn 10
        match takeLines formats key offset limit shard.index lines seen entries with
        | .error error => .error error
        | .ok (seen, entries) =>
          if limit ≤ entries.length then .ok entries
          else takeShards objects shards seen entries

end

def MAX_ROW_PAGE : Nat := 1000

/-- A finished export's entries, a page at a time. -/
def rows (formats : Formats) (job : AuditExportJob) (objects : BTreeMap Nat Bytes)
    (offset limit : Nat) : Except Error AuditExportRowsPage := do
  refuseIf (limit = 0 ∨ MAX_ROW_PAGE < limit)
    (.invalid ("limit must be in 1..=" ++ MAX_ROW_PAGE.repr))
  refuseIf (job.state ≠ .completed)
    (.conflict ("the audit export " ++ job.jobId ++ " is " ++ job.state.asStr ++
      " and has no result to read"))
  let entries ← takeShards formats (formats.shardKey job.organization job.jobId) offset limit
    objects job.shards 0 []
  pure {
    entries := entries
    nextOffset :=
      if offset + entries.length < job.counts.entries then some (offset + entries.length) else none
    total := job.counts.entries }

end Aiwatcher.Iam
