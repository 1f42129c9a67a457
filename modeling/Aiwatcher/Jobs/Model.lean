import Aiwatcher.Core
import Aiwatcher.Library.Parties

/-!
# Aiwatcher.Jobs.Model

The rules a long job over an object store keeps (`aiwatcher-jobs`): where a job is, where a
failure sends it, and the reference it ends with.  How long a claim is trusted is
`leaseExpired`.
-/

namespace Aiwatcher.Jobs

/-- Where a job is. -/
inductive JobState where
  | queued
  | running
  | completed
  | failed
  | cancelled
  deriving DecidableEq, Repr

def JobState.asStr : JobState → String
  | .queued => "queued"
  | .running => "running"
  | .completed => "completed"
  | .failed => "failed"
  | .cancelled => "cancelled"

def JobState.isFinished : JobState → Bool
  | .completed | .failed | .cancelled => true
  | .queued | .running => false

abbrev Bytes := List UInt8

/-- One written shard: its place, its rows, and the digest of its bytes. -/
structure ShardRef where
  index : Nat
  rows : Nat
  digest : String
  deriving DecidableEq, Repr

def MAX_ATTEMPTS : Nat := 3

/-- Where a job goes after an attempt failed. -/
def afterFailure (attempts : Nat) (retryable : Bool) : JobState :=
  if retryable && decide (attempts < MAX_ATTEMPTS) then .queued else .failed

theorem afterFailure_cases (attempts : Nat) (retryable : Bool) :
    afterFailure attempts retryable = .queued ∨ afterFailure attempts retryable = .failed := by
  unfold afterFailure
  split
  · exact .inl rfl
  · exact .inr rfl

/-- Another worker holds a live lease. -/
def heldElsewhere (state : JobState) (claimedBy : String) (claimedAt : Option OffsetDateTime)
    (worker : String) (now : OffsetDateTime) : Bool :=
  state == .running && !leaseExpired claimedAt now && claimedBy != worker

/-- The stored job tells a worker to stop writing to it. -/
def interrupted (state : JobState) (claimedBy worker : String) : Bool :=
  state == .cancelled || claimedBy != worker

/-- What a version is taken of: the request's digest and every shard's, in order. -/
def versionMaterial (requestDigest : String) (shards : List ShardRef) : String :=
  shards.foldl (fun material shard => material ++ "\x00" ++ shard.digest) requestDigest

/-- The reference a finished job is named by. -/
def versionOf (digest : Bytes → String) (requestDigest : String) (shards : List ShardRef) :
    String :=
  digest (versionMaterial requestDigest shards).toUTF8.toList

/-! ## Parties -/

/-- Who writes the record of a job: a worker, by its name, or somebody's cancellation. -/
inductive JobParty where
  | worker (name : String)
  | canceller (request : Nat)
  deriving DecidableEq, Repr

/-- Why an attempt failed, and whether it is worth coming back for. -/
structure Failure where
  text : String
  retryable : Bool
  deriving DecidableEq, Repr

end Aiwatcher.Jobs
