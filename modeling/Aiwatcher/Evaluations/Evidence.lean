import Aiwatcher.Evaluations.Cases
import Aiwatcher.Library.Programs

/-!
# Aiwatcher.Evaluations.Evidence

The objects of published results, and how the registry reads, retires and sweeps them
(`store.rs`, and `read_metadata`, `retire`, `forget` and `sweep` in `registry.rs`), one object at a
time.

Objects under a hash of an evaluation's id are kept by the id.  The store answers every request.
What the adapter answers about a pair of a variant and a context, and what a sealed object opens to,
are parameters.
-/

namespace Aiwatcher.Evaluations

open Library Prog

/-! ## Objects -/

structure Pending where
  evaluationId : String
  expiresAt : Int
  deriving DecidableEq, Repr

/-- Collection competes with publication at this same immutable key. -/
inductive Claim where
  | committed (receipt : EvaluationReceipt)
  | abandoned (pending : Pending)
  deriving DecidableEq, Repr

structure IndexEntry where
  receipt : EvaluationReceipt
  retired : Option EvidenceState
  deriving DecidableEq, Repr

structure PublishedManifest where
  /-- `origin.evaluation_id` -/
  evaluationId : String
  manifest : EvaluationManifest

/-- A result's header; what was measured is left as it is written. -/
structure Header where
  manifest : PublishedManifest
  shards : List Shard
  measured : Value

/-- An object of a result, as it is stored. -/
structure Stored where
  bytes : String
  isSealed : Bool
  deriving DecidableEq, Repr

structure Approval where
  admits : Bool
  bundleDigest : Option String
  deriving DecidableEq, Repr

structure EvidenceStore where
  claims : BTreeMap String Claim
  pendings : BTreeMap String Pending
  tombstones : BTreeMap String EvidenceState
  /-- The objects of a result, by their digests. -/
  content : BTreeMap String (BTreeMap String Stored)
  index : BTreeMap String IndexEntry
  approvals : BTreeMap String Approval

namespace EvidenceStore

def new : EvidenceStore := ⟨∅, ∅, ∅, ∅, ∅, ∅⟩

def contentOf (store : EvidenceStore) (id : String) : BTreeMap String Stored :=
  (store.content[id]?).getD ∅

def deleteObject (id digest : String) (store : EvidenceStore) : EvidenceStore :=
  { store with content := store.content.insert id ((store.contentOf id).erase digest) }

def createTombstone (id : String) (state : EvidenceState) (store : EvidenceStore) : EvidenceStore :=
  if (store.tombstones[id]?).isSome then store
  else { store with tombstones := store.tombstones.insert id state }

def putRow (entry : IndexEntry) (store : EvidenceStore) : EvidenceStore :=
  { store with index := store.index.insert entry.receipt.evaluationId entry }

end EvidenceStore

/-! ## Sources -/

structure SourceEvidence where
  bundleDigest : Option String
  earlierBundleDigest : Option String
  expiresAt : Option Int
  deriving DecidableEq, Repr

def sameBundle (record : Approval) (source : SourceEvidence) : Bool :=
  record.bundleDigest == source.bundleDigest ||
    record.bundleDigest.isSome && record.bundleDigest == source.earlierBundleDigest

/-- One verdict per admitted pair, for the length of one list or one sweep. -/
abbrev Sources := BTreeMap String (Except EvidenceState (Option Int))

/-- Why a sealed object does not open. -/
inductive Locked where
  | unknownKey | damaged
  deriving DecidableEq, Repr

def Locked.state : Locked → EvidenceState
  | unknownKey => .forbidden
  | damaged => .corruptArtifact

/-- What a registry of results is run with. -/
structure EvidenceRegistry where
  contentAccess : Bool
  hash : String → String
  parse : String → Option Header
  /-- The keyring, if there is one. -/
  cipher : Option (String → Except Locked String)
  /-- A manifest's variant id and context id, or what is wrong with it. -/
  prepare : PublishedManifest → Except (String × String) (String × String)
  approvalId : String → String → String

section

variable (registry : EvidenceRegistry)

/-! ## Reading a header -/

/-- The bytes of an object as they were sealed, and whether they were. -/
def openStored (stored : Stored) : Except EvidenceState (String × Bool) :=
  if stored.isSealed then
    match registry.cipher with
    | none => .error .forbidden
    | some openSealed =>
      match openSealed stored.bytes with
      | .error locked => .error locked.state
      | .ok bytes => .ok (bytes, true)
  else .ok (stored.bytes, false)

def opened (digest : String) : Option Stored → Except EvidenceState (Header × Bool)
  | none => .error .missingArtifact
  | some stored => do
      let (bytes, isSealed) ← openStored registry stored
      if registry.hash bytes ≠ digest then .error .corruptArtifact
      else
        match registry.parse bytes with
        | none => .error .corruptArtifact
        | some header => .ok (header, isSealed)

/-- Whether a result's objects have to be sealed. -/
def protectedResult (manifest : PublishedManifest) : Except EvidenceState Bool :=
  let closed := decide (manifest.manifest.context.dataset.kind = .conversations)
  if closed ∧ (registry.contentAccess = false ∨ registry.cipher.isNone) then .error .forbidden
  else .ok closed

/-- The header of a result, if what is stored is the one its receipt names. -/
def headerOf (receipt : EvaluationReceipt) (stored : Option Stored) :
    Except EvaluationError Header :=
  match opened registry receipt.version stored with
  | .error state => .error (.unavailable state)
  | .ok (header, isSealed) =>
    match protectedResult registry header.manifest with
    | .error state => .error (.unavailable state)
    | .ok closed =>
      if closed && !isSealed then .error (.unavailable .corruptArtifact)
      else
        match registry.prepare header.manifest with
        | .error (field, reason) => .error (.invalid field reason)
        | .ok (variantId, contextId) =>
          if variantId = receipt.variantId ∧ contextId = receipt.contextId ∧
              header.manifest.evaluationId = receipt.evaluationId then .ok header
          else .error (.invalid "receipt" "manifest identity mismatch")

def pairOf (receipt : EvaluationReceipt) : String :=
  registry.approvalId receipt.variantId receipt.contextId

/-! ## Asking the source -/

variable (resolve : String → Except EvaluationError SourceEvidence)

/-- Whether the source still admits this pair, and until when. -/
def sourceOf (pair : String) : Prog EvidenceStore (Except EvaluationError (Option Int)) := do
  let approval ← read fun store => store.approvals[pair]?
  if approval.any fun approval => !approval.admits then
    pure (.error (.unavailable .forbidden))
  else
    match resolve pair with
    | .error error => pure (.error error)
    | .ok source =>
      if approval.any fun approval => !sameBundle approval source then
        pure (.error (.unavailable .forbidden))
      else pure (.ok source.expiresAt)

/-- The verdict about a pair, remembered or asked for. -/
def remembered (pair : String) (sources : Sources) :
    Prog EvidenceStore (Except EvaluationError (Except EvidenceState (Option Int) × Sources)) := do
  match sources[pair]? with
  | some verdict => pure (.ok (verdict, sources))
  | none =>
    match ← sourceOf resolve pair with
    | .ok expiry => pure (.ok (.ok expiry, sources.insert pair (.ok expiry)))
    -- Only a verdict about the source is worth remembering.
    | .error (.unavailable state) =>
      pure (.ok (.error state, sources.insert pair (.error state)))
    | .error error => pure (.error error)

/-- A result's header as long as its source admits it, and the verdicts known by then. -/
def readMetadata (receipt : EvaluationReceipt) (now : Int) (sources : Sources) :
    Prog EvidenceStore (Except EvaluationError Header × Sources) := do
  let stored ← read fun store => (store.contentOf receipt.evaluationId)[receipt.version]?
  match headerOf registry receipt stored with
  | .error error => pure (.error error, sources)
  | .ok header =>
    match ← remembered resolve (pairOf registry receipt) sources with
    | .error error => pure (.error error, sources)
    | .ok (.error state, sources) => pure (.error (.unavailable state), sources)
    | .ok (.ok expiry, sources) =>
      if expiry.any (· ≤ now) then pure (.error (.unavailable .expired), sources)
      else pure (.ok header, sources)

/-! ## Retirement -/

/-- The objects of a result, one after the other. -/
def erase (id : String) : Prog EvidenceStore Unit := do
  let digests ← read fun store => (store.contentOf id).keys
  digests.forM fun digest => write (EvidenceStore.deleteObject id digest)

/-- The catalogue row is marked before the tombstone, and the tombstone precedes erasure. -/
def retire (id : String) (published : Option EvaluationReceipt) (reason : EvidenceState) :
    Prog EvidenceStore Unit := do
  match published with
  | some receipt => write (EvidenceStore.putRow ⟨receipt, some reason⟩)
  | none => pure ()
  write (EvidenceStore.createTombstone id reason)
  erase id

/-- Forget one published result on request. -/
def forget (id : String) : Prog EvidenceStore Bool := do
  match ← read fun store => store.claims[id]? with
  | none => pure false
  | some claim =>
    retire id (match claim with | .committed receipt => some receipt | .abandoned _ => none)
      .deletedSource
    pure true

/-! ## The sweep -/

/-- Whether a verdict about the source ends a result. -/
def ends : Except EvidenceState (Option Int) → Option EvidenceState
  | .error .expired => some .expired
  | .error .deletedSource => some .deletedSource
  | _ => none

/-- The verdict the sweep goes by: the one remembered of the pair, or what reading the header
comes to. -/
def verdictOf (receipt : EvaluationReceipt) (now : Int) (sources : Sources) :
    Prog EvidenceStore (Except EvaluationError (Except EvidenceState (Option Int)) × Sources) := do
  match sources[pairOf registry receipt]? with
  | some verdict => pure (.ok verdict, sources)
  | none =>
    match ← readMetadata registry resolve receipt now sources with
    | (.ok _, sources) => pure (.ok (.ok none), sources)
    | (.error (.unavailable state), sources) => pure (.ok (.error state), sources)
    | (.error error, sources) => pure (.error error, sources)

/-- A result whose verdict is known: whether it is retired now. -/
def ended (receipt : EvaluationReceipt) (verdict : Except EvidenceState (Option Int))
    (sources : Sources) : Prog EvidenceStore (Except EvaluationError Bool × Sources) :=
  match ends verdict with
  | none => pure (.ok false, sources)
  | some state => do
      retire receipt.evaluationId (some receipt) state
      pure (.ok true, sources)

/-- One result of a sweep: whether it is retired now. -/
def sweepOne (receipt : EvaluationReceipt) (now : Int) (sources : Sources) :
    Prog EvidenceStore (Except EvaluationError Bool × Sources) := do
  match ← read fun store => store.tombstones[receipt.evaluationId]? with
  | some _ => do
      -- Already retired. Erase whatever a late write left behind.
      erase receipt.evaluationId
      pure (.ok false, sources)
  | none =>
    if receipt.expiresAt ≤ now then do
      retire receipt.evaluationId (some receipt) .expired
      pure (.ok true, sources)
    else
      match ← verdictOf registry resolve receipt now sources with
      | (.error error, sources) => pure (.error error, sources)
      | (.ok verdict, sources) => ended receipt verdict sources

/-- The rest of a sweep, over the claims listed. -/
def sweepFrom (now : Int) : List String → Nat → Sources →
    Prog EvidenceStore (Except EvaluationError Nat)
  | [], retired, _ => pure (.ok retired)
  | id :: ids, retired, sources => do
      match ← read fun store => store.claims[id]? with
      | some (.committed receipt) =>
        match ← sweepOne registry resolve receipt now sources with
        | (.error error, _) => pure (.error error)
        | (.ok swept, sources) => sweepFrom now ids (if swept then retired + 1 else retired) sources
      | _ => sweepFrom now ids retired sources

/-- An operator sweep enforces expiry and owner-wide deletion without a read. -/
def sweep (listed : List String → List String) (now : Int) :
    Prog EvidenceStore (Except EvaluationError Nat) := do
  let ids ← read fun store => listed store.claims.keys
  sweepFrom registry resolve now ids 0 ∅

end

end Aiwatcher.Evaluations
