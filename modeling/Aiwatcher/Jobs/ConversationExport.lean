import Aiwatcher.Jobs.Model
import Aiwatcher.Library.Table

/-!
# Aiwatcher.Jobs.ConversationExport

The export of conversations (`export/mod.rs`), one access at a time.  What a conversation gives
is the archive's answer.
-/

namespace Aiwatcher.Jobs

open Library

structure ExportCounts where
  conversations : Nat
  turnsConsidered : Nat
  turnsIncluded : Nat
  turnsExcluded : Nat
  rows : Nat
  deriving DecidableEq, Repr

def ExportCounts.add (a b : ExportCounts) : ExportCounts where
  conversations := a.conversations + b.conversations
  turnsConsidered := a.turnsConsidered + b.turnsConsidered
  turnsIncluded := a.turnsIncluded + b.turnsIncluded
  turnsExcluded := a.turnsExcluded + b.turnsExcluded
  rows := a.rows + b.rows

/-- Counts by their reason, added up. -/
def addReasons (counts more : List (String × Nat)) : List (String × Nat) :=
  more.foldl (fun counts reason =>
    if counts.any (·.1 == reason.1) then
      counts.map fun held => if held.1 == reason.1 then (held.1, held.2 + reason.2) else held
    else counts ++ [reason]) counts

structure ExportJob where
  jobId : String
  requestDigest : String
  state : JobState
  conversations : List String
  cursor : Nat
  attempts : Nat
  claimedBy : String
  claimedAt : Option OffsetDateTime
  counts : ExportCounts
  exclusions : List (String × Nat)
  shards : List ShardRef
  version : Option String
  error : Option String
  createdAt : OffsetDateTime
  updatedAt : OffsetDateTime
  finishedAt : Option OffsetDateTime
  deriving DecidableEq, Repr

/-- What has been read since the last shard was written. -/
structure Staged where
  conversations : Nat
  rows : List Bytes
  counts : ExportCounts
  exclusions : List (String × Nat)
  deriving DecidableEq, Repr

def Staged.empty : Staged := ⟨0, [], ⟨0, 0, 0, 0, 0⟩, []⟩

/-- The rows as the bytes of a shard. -/
def linesOf (rows : List Bytes) : Bytes := rows.flatMap fun row => row ++ [10]

namespace ExportJob

variable (job : ExportJob)

def heldElsewhere (worker : String) (now : OffsetDateTime) : Bool :=
  Jobs.heldElsewhere job.state job.claimedBy job.claimedAt worker now

def claim (worker : String) (now : OffsetDateTime) : ExportJob :=
  { job with state := .running, claimedBy := worker, claimedAt := some now, updatedAt := now }

def interrupts (worker : String) : Bool :=
  interrupted job.state job.claimedBy worker

def cancelled (now : OffsetDateTime) : ExportJob :=
  { job with state := .cancelled, finishedAt := some now, updatedAt := now }

def flushed (digest : Bytes → String) (staged : Staged) (worker : String) (now : OffsetDateTime) :
    ExportJob :=
  { job with
    shards := job.shards ++ [{
      index := job.shards.length
      rows := staged.rows.length
      digest := digest (linesOf staged.rows) }]
    cursor := job.cursor + staged.conversations
    counts := job.counts.add staged.counts
    exclusions := addReasons job.exclusions staged.exclusions
    updatedAt := now
    claimedBy := worker
    claimedAt := some now }

def complete (digest : Bytes → String) (worker : String) (now : OffsetDateTime) : ExportJob :=
  { job with
    state := .completed
    version := some (versionOf digest job.requestDigest job.shards)
    error := none
    finishedAt := some now
    updatedAt := now
    claimedBy := worker }

def park (failure : Failure) (now : OffsetDateTime) : ExportJob :=
  { job with
    attempts := job.attempts + 1
    error := some failure.text
    updatedAt := now
    claimedBy := ""
    claimedAt := none
    state := afterFailure (job.attempts + 1) failure.retryable
    finishedAt := if afterFailure (job.attempts + 1) failure.retryable = .failed then some now
      else job.finishedAt }

end ExportJob

section

variable (digest : Bytes → String) (EXPORT_SHARD_ROWS : Nat)

end

end Aiwatcher.Jobs
