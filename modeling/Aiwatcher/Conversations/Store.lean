import Aiwatcher.Conversations.Model
import Aiwatcher.Jobs.ConversationExport
import Aiwatcher.Library.Programs
import Aiwatcher.Library.Tally

/-!
# Aiwatcher.Conversations.Store

What the archive keeps in its object store (`archive/mod.rs`, `export/mod.rs`, `store.rs`): the
turns' heads and their contents, a conversation's counts and the order its turns are read in, and
the corpora that were published.

Objects are kept under the ids their keys are hashed from, and what is sealed is kept as it is.
-/

namespace Aiwatcher.Conversations

open Library

/-- Entries in one index shard. -/
def INDEX_SHARD_ENTRIES : Nat := 1000

/-! ## Turns -/

inductive ErasureReason where
  | expired
  | request
  deriving DecidableEq, Repr

/-- Why content was removed. -/
structure Erasure where
  reason : ErasureReason
  «by» : String
  «at» : OffsetDateTime
  deriving DecidableEq, Repr

/-- A turn as the archive holds it: everything except the words. -/
structure ArchivedTurn where
  turnId : String
  conversationId : String
  messageId : String
  parentMessageId : Option String
  ordinal : Nat
  role : Role
  contentDigest : String
  contentBytes : Nat
  parts : List PartSummary
  toolResults : Nat
  provenance : Provenance
  policy : ContentPolicy
  retentionClamped : Bool
  findings : List Finding
  review : TurnReview
  state : TurnState
  erasure : Option Erasure
  receivedAt : OffsetDateTime
  occurredAt : Option OffsetDateTime
  expiresAt : Option OffsetDateTime
  /-- Which index shard lists this turn, once one does. -/
  indexShard : Option Nat
  deriving DecidableEq, Repr

namespace ArchivedTurn

/-- Whether an export may take this turn's content at all. -/
def isReadable (turn : ArchivedTurn) : Bool := turn.state = .held

end ArchivedTurn

/-- The turn a marker names. -/
structure TurnMarker where
  turnId : String
  conversationId : String
  deriving DecidableEq, Repr

/-! ## Conversations -/

/-- One conversation's counts. -/
structure ConversationHead where
  conversationId : String
  turns : Nat := 0
  pending : Nat := 0
  approved : Nat := 0
  rejected : Nat := 0
  erased : Nat := 0
  /-- Findings by kind. -/
  findings : BTreeMap String Nat := ∅
  shards : Nat := 0
  entries : Nat := 0
  firstSeen : OffsetDateTime
  lastSeen : OffsetDateTime
  /-- The soonest any of this conversation's content expires. -/
  earliestExpiry : Option OffsetDateTime := none

namespace ConversationHead

/-- A head for a conversation whose first turn is arriving now. -/
def opening (conversationId : String) (at' : OffsetDateTime) : ConversationHead where
  conversationId
  firstSeen := at'
  lastSeen := at'

def increment (head : ConversationHead) (turn : ArchivedTurn) : ConversationHead :=
  let head := match turn.review.state with
    | .pending => { head with pending := head.pending + 1 }
    | .approved => { head with approved := head.approved + 1 }
    | .rejected => { head with rejected := head.rejected + 1 }
  let head := if turn.state = .erased then { head with erased := head.erased + 1 } else head
  { head with findings := turn.findings.foldl (fun findings finding =>
      Table.entry findings finding.kind.asStr 0 (· + 1)) head.findings }

def decrement (head : ConversationHead) (turn : ArchivedTurn) : ConversationHead :=
  let head := match turn.review.state with
    | .pending => { head with pending := head.pending - 1 }
    | .approved => { head with approved := head.approved - 1 }
    | .rejected => { head with rejected := head.rejected - 1 }
  let head := if turn.state = .erased then { head with erased := head.erased - 1 } else head
  { head with findings := (turn.findings.foldl (fun findings finding =>
      findings.modify finding.kind.asStr (· - 1)) head.findings).filter fun _ count => 0 < count }

/-- Move a conversation's counts from what a turn used to be to what it is now. -/
def applyCounts (head : ConversationHead) (previous next : Option ArchivedTurn) :
    ConversationHead :=
  let head := previous.elim head fun previous =>
    ({ head with turns := head.turns - 1 } : ConversationHead).decrement previous
  next.elim head fun next =>
    ({ head with turns := head.turns + 1 } : ConversationHead).increment next

end ConversationHead

/-- The objects of one conversation. -/
structure ConversationObjects where
  head : Option ConversationHead := none
  /-- The order an export reads a conversation in, in shards. -/
  index : BTreeMap Nat (List String) := ∅
  turns : BTreeMap String ArchivedTurn := ∅

/-! ## Corpora -/

inductive ExportFormat where
  | chat
  | promptResponse
  | sft
  | dpo
  deriving DecidableEq, Repr

/-- Why a corpus was withdrawn, and when. -/
structure Withdrawal where
  conversations : List String
  «by» : String
  «at» : OffsetDateTime
  deriving DecidableEq, Repr

/-- What a finished export is. -/
structure ExportManifest where
  name : String
  version : String
  jobId : String
  /-- The conversations this export read. -/
  conversations : List String
  withdrawn : Option Withdrawal := none
  requestDigest : String
  counts : Jobs.ExportCounts
  exclusions : List (String × Nat)
  shards : List Jobs.ShardRef
  builtAt : OffsetDateTime
  deriving DecidableEq, Repr

structure ExportVersionSummary where
  version : String
  format : ExportFormat
  rows : Nat
  /-- True once an erasure has taken this corpus' rows away. -/
  withdrawn : Bool := false
  builtAt : OffsetDateTime
  deriving DecidableEq, Repr

/-- Which versions of one name exist. -/
structure ExportIndex where
  name : String
  versions : List ExportVersionSummary := []
  deriving DecidableEq, Repr

/-! ## The store -/

structure Store where
  conversations : BTreeMap String ConversationObjects := ∅
  contents : BTreeMap String TurnContent := ∅
  /-- Which turn said a content first. -/
  digests : BTreeMap String TurnMarker := ∅
  subjects : BTreeMap String (BTreeMap String TurnMarker) := ∅
  /-- The shards of each job. -/
  shards : BTreeMap String (BTreeMap Nat Jobs.Bytes) := ∅
  manifests : BTreeMap String (BTreeMap String ExportManifest) := ∅
  exportIndexes : BTreeMap String ExportIndex := ∅

namespace Store

def conversation (store : Store) (conversationId : String) : ConversationObjects :=
  store.conversations[conversationId]?.getD {}

def head (store : Store) (conversationId : String) : Option ConversationHead :=
  (store.conversation conversationId).head

def index (store : Store) (conversationId : String) (shard : Nat) : List String :=
  (store.conversation conversationId).index[shard]?.getD []

def turn (store : Store) (conversationId turnId : String) : Option ArchivedTurn :=
  (store.conversation conversationId).turns[turnId]?

def subject (store : Store) (subject : String) : BTreeMap String TurnMarker :=
  store.subjects[subject]?.getD ∅

def manifest (store : Store) (name version : String) : Option ExportManifest :=
  (store.manifests[name]?.getD ∅)[version]?

def putConversation (conversationId : String) (objects : ConversationObjects) (store : Store) :
    Store :=
  { store with conversations := store.conversations.insert conversationId objects }

def putHead (head : ConversationHead) (store : Store) : Store :=
  store.putConversation head.conversationId
    { store.conversation head.conversationId with head := some head }

def putIndex (conversationId : String) (shard : Nat) (entries : List String) (store : Store) :
    Store :=
  store.putConversation conversationId
    { store.conversation conversationId with
      index := (store.conversation conversationId).index.insert shard entries }

def putTurn (turn : ArchivedTurn) (store : Store) : Store :=
  store.putConversation turn.conversationId
    { store.conversation turn.conversationId with
      turns := (store.conversation turn.conversationId).turns.insert turn.turnId turn }

def putContent (turnId : String) (content : TurnContent) (store : Store) : Store :=
  { store with contents := store.contents.insert turnId content }

def deleteContent (turnId : String) (store : Store) : Store :=
  { store with contents := store.contents.erase turnId }

def putDigest (contentDigest : String) (marker : TurnMarker) (store : Store) : Store :=
  { store with digests := store.digests.insert contentDigest marker }

def deleteDigest (contentDigest : String) (store : Store) : Store :=
  { store with digests := store.digests.erase contentDigest }

def putSubject (subject : String) (marker : TurnMarker) (store : Store) : Store :=
  { store with
    subjects := store.subjects.insert subject
      ((store.subject subject).insert marker.turnId marker) }

def deleteShard (jobId : String) (shard : Nat) (store : Store) : Store :=
  { store with
    shards := store.shards.insert jobId ((store.shards[jobId]?.getD ∅).erase shard) }

def putManifest (manifest : ExportManifest) (store : Store) : Store :=
  { store with
    manifests := store.manifests.insert manifest.name
      ((store.manifests[manifest.name]?.getD ∅).insert manifest.version manifest) }

def putExportIndex (index : ExportIndex) (store : Store) : Store :=
  { store with exportIndexes := store.exportIndexes.insert index.name index }

end Store

end Aiwatcher.Conversations
