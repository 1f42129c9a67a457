import Aiwatcher.Jobs.ConversationExport

/-!
# Aiwatcher.Jobs.AnnotationImport

The import of annotated images (`imports/mod.rs`), one access at a time.  What a page of rows
comes to is the registry's answer.
-/

namespace Aiwatcher.Jobs

open Library

structure ImportCounts where
  rowsConsidered : Nat
  accepted : Nat
  rejected : Nat
  fetched : Nat
  bytesStored : Nat
  deriving DecidableEq, Repr

def ImportCounts.add (a b : ImportCounts) : ImportCounts where
  rowsConsidered := a.rowsConsidered + b.rowsConsidered
  accepted := a.accepted + b.accepted
  rejected := a.rejected + b.rejected
  fetched := a.fetched + b.fetched
  bytesStored := a.bytesStored + b.bytesStored

structure ImportJob where
  jobId : String
  requestDigest : String
  dryRun : Bool
  state : JobState
  pages : Nat
  cursor : Nat
  attempts : Nat
  claimedBy : String
  claimedAt : Option OffsetDateTime
  counts : ImportCounts
  rejects : List (String × Nat)
  rejectPages : List Nat
  shards : List ShardRef
  version : Option String
  error : Option String
  createdAt : OffsetDateTime
  updatedAt : OffsetDateTime
  finishedAt : Option OffsetDateTime
  deriving DecidableEq, Repr

namespace ImportJob

variable (job : ImportJob)

def heldElsewhere (worker : String) (now : OffsetDateTime) : Bool :=
  Jobs.heldElsewhere job.state job.claimedBy job.claimedAt worker now

def claim (worker : String) (now : OffsetDateTime) : ImportJob :=
  { job with state := .running, claimedBy := worker, claimedAt := some now, updatedAt := now }

def interrupts (worker : String) : Bool :=
  interrupted job.state job.claimedBy worker

def cancelled (now : OffsetDateTime) : ImportJob :=
  { job with state := .cancelled, finishedAt := some now, updatedAt := now }

def complete (digest : Bytes → String) (now : OffsetDateTime) : ImportJob :=
  { job with
    state := .completed
    version := some (versionOf digest job.requestDigest job.shards)
    finishedAt := some now
    updatedAt := now
    claimedBy := ""
    claimedAt := none }

def park (failure : Failure) (now : OffsetDateTime) : ImportJob :=
  { job with
    attempts := job.attempts + 1
    error := some failure.text
    updatedAt := now
    claimedBy := ""
    claimedAt := none
    state := afterFailure (job.attempts + 1) failure.retryable
    finishedAt := if afterFailure (job.attempts + 1) failure.retryable = .failed then some now
      else job.finishedAt }

end ImportJob

section

variable (digest : Bytes → String)

end

end Aiwatcher.Jobs
