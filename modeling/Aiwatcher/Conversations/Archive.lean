import Aiwatcher.Conversations.Store

/-!
# Aiwatcher.Conversations.Archive

The operations on the archive, one object of the store at a time (`archive/mod.rs`, and
`withdraw_for` of `export/mod.rs`).
-/

namespace Aiwatcher.Conversations

open Library Prog

/-! ## Recording -/

/-- Make sure the index lists a turn, and that its head says where. -/
def listTurn (head : ConversationHead) (turn : ArchivedTurn) :
    Prog Store (ConversationHead × ArchivedTurn) := do
  if turn.indexShard.isSome then
    pure (head, turn)
  else
    let last := head.shards - 1
    let current ← read fun store => store.index turn.conversationId last
    -- a full shard is never rewritten
    let full := INDEX_SHARD_ENTRIES ≤ current.length
    let shard := if full then head.shards else last
    let entries := if full then [] else current
    write (.putIndex turn.conversationId shard (entries ++ [turn.turnId]))
    let turn := { turn with indexShard := some shard }
    write (.putTurn turn)
    pure ({ head with shards := max head.shards (shard + 1), entries := head.entries + 1 }, turn)

def earlier : Option OffsetDateTime → Option OffsetDateTime → Option OffsetDateTime
  | some current, some candidate => some (min current candidate)
  | current, candidate => current.or candidate

/-- Write a head, then make sure the index and the conversation's counts agree with it. -/
def writeTurn (turn : ArchivedTurn) (previous : Option ArchivedTurn) : Prog Store ArchivedTurn := do
  write (.putTurn turn)
  let subject := turn.policy.consent.subject
  if subject ≠ "" then
    write (.putSubject subject ⟨turn.turnId, turn.conversationId⟩)
  let held ← read fun store => store.head turn.conversationId
  let head := held.getD (.opening turn.conversationId turn.receivedAt)
  let (head, turn) ← listTurn head turn
  let head := head.applyCounts previous (some turn)
  write (.putHead { head with
    lastSeen := max head.lastSeen turn.receivedAt
    earliestExpiry := earlier head.earliestExpiry turn.expiresAt })
  pure turn

/-- What a write answers with. -/
structure RecordedTurn where
  turnId : String
  contentDigest : String
  /-- False when the turn was stored already. -/
  created : Bool
  findings : List Finding
  review : TurnReview
  expiresAt : Option OffsetDateTime
  deriving DecidableEq, Repr

section

variable (reader : Reader)

/-- What is held against a turn: the scanner's findings of this look, another turn that said the
same, and what reviewers found before. -/
def findingsOf (content : TurnContent) (turnId : String) (marker : Option TurnMarker)
    (existing : Option ArchivedTurn) : List Finding :=
  reader.scan content ++
    (if marker.any (·.turnId ≠ turnId) then
      [{ kind := .duplicate, rule := "same-content", foundBy := "scanner" }] else []) ++
    existing.elim [] fun turn => turn.findings.filter (·.foundBy ≠ "scanner")

/-- The same content of a turn that is there keeps its review. -/
def reviewOf (contentDigest : String) (existing : Option ArchivedTurn) : TurnReview :=
  match existing with
  | some turn =>
    if turn.contentDigest = contentDigest ∧ turn.isReadable then turn.review else {}
  | none => {}

/-- The head of a turn that is recorded. -/
def archivedTurn (policy : ArchivePolicy) (request : RecordTurnRequest)
    (existing : Option ArchivedTurn) (marker : Option TurnMarker) (now : OffsetDateTime) :
    ArchivedTurn :=
  let turnId := reader.turnId request.conversationId request.messageId
  let contentDigest := reader.digest request.content
  let (retention, clamped) := policy.clamp request.policy.retention
  let receivedAt := existing.elim now (·.receivedAt)
  { turnId
    conversationId := request.conversationId
    messageId := request.messageId
    parentMessageId := request.parentMessageId
    ordinal := request.ordinal
    role := request.role
    contentDigest
    contentBytes := request.content.bytes
    parts := request.content.summarise
    toolResults := request.content.toolResults.length
    provenance := request.provenance
    policy := { request.policy with retention }
    retentionClamped := clamped
    findings := findingsOf reader request.content turnId marker existing
    review := reviewOf contentDigest existing
    state := .held
    erasure := none
    receivedAt
    occurredAt := request.occurredAt
    expiresAt := some (retention.expiresAt receivedAt)
    indexShard := existing.bind (·.indexShard) }

/-- Why a request is refused, before anything is read. -/
def admitTurn (policy : ArchivePolicy) (request : RecordTurnRequest) : Except Error Unit := do
  request.validate
  refuseIf (policy.check request.policy ≠ []) (.rejected (policy.check request.policy))
  refuseIf (policy.rejectOnFinding ∧ reader.scan request.content ≠ [])
    (.rejected ((reader.scan request.content).map fun finding =>
      s!"the content matched {finding.rule} ({finding.kind.asStr}), " ++
        "and this deployment refuses such a write"))

def record (policy : ArchivePolicy) (request : RecordTurnRequest) (now : OffsetDateTime) :
    Prog Store (Except Error RecordedTurn) := do
  match admitTurn reader policy request with
  | .error error => pure (.error error)
  | .ok () =>
    let turnId := reader.turnId request.conversationId request.messageId
    let contentDigest := reader.digest request.content
    let existing ← read fun store => store.turn request.conversationId turnId
    let marker ← read fun store => store.digests[contentDigest]?
    let turn := archivedTurn reader policy request existing marker now
    -- content before the head that names it
    write (.putContent turnId request.content)
    let turn ← writeTurn turn existing
    write (.putDigest contentDigest ⟨turnId, request.conversationId⟩)
    pure (.ok {
      turnId
      contentDigest
      created := existing.isNone
      findings := turn.findings
      review := turn.review
      expiresAt := turn.expiresAt })

end

/-! ## Reviewing -/

/-- Move a conversation's counts, where it has a head. -/
def recount (conversationId : String) (previous next : ArchivedTurn) : Prog Store Unit := do
  match ← read fun store => store.head conversationId with
  | none => pure ()
  | some head => write (.putHead (head.applyCounts (some previous) (some next)))

def review (conversationId turnId reviewer : String) (request : ReviewRequest)
    (now : OffsetDateTime) : Prog Store (Except Error ArchivedTurn) := do
  let admitted : Except Error Unit := do
    request.validate
    validateName conversationId "conversation_id"
    validateDigest turnId "turn_id"
  match admitted with
  | .error error => pure (.error error)
  | .ok () =>
    match ← read fun store => store.turn conversationId turnId with
    | none => pure (.error (.notFound s!"the turn {turnId}"))
    | some previous =>
      let next := { previous with
        review := {
          state := request.state
          reviewer
          note := request.note
          decidedAt := some now
          preference := request.preference }
        findings := previous.findings ++ request.attributed reviewer }
      write (.putTurn next)
      recount conversationId previous next
      pure (.ok next)

/-! ## Erasing -/

/-- Remove one turn's content, keeping its head. -/
def eraseTurn (conversationId turnId : String) (reason : ErasureReason) («by» : String)
    (now : OffsetDateTime) : Prog Store Bool := do
  match ← read fun store => store.turn conversationId turnId with
  | none => pure false
  | some previous =>
    if previous.state = .erased then
      pure false
    else
      -- the content first
      write (.deleteContent turnId)
      write (.deleteDigest previous.contentDigest)
      let next := { previous with
        state := .erased
        erasure := some { reason, «by» := «by», «at» := now } }
      write (.putTurn next)
      recount conversationId previous next
      pure true

/-- The turns an index lists, one after another. -/
def forListed {α : Type} (conversationId : String) (shards : Nat) (result : α)
    (f : α → String → Prog Store α) : Prog Store α :=
  (List.range shards).foldlM (fun result shard => do
    let entries ← read fun store => store.index conversationId shard
    entries.foldlM f result) result

/-- The sooner of a moment and a turn's expiry, where its content is still held. -/
def soonerHeld (conversationId : String) (earliest : Option OffsetDateTime) (turnId : String) :
    Prog Store (Option OffsetDateTime) := do
  match ← read fun store => store.turn conversationId turnId with
  | none => pure earliest
  | some turn =>
    pure (if turn.state = .erased then earliest else earlier earliest turn.expiresAt)

/-- Recompute a conversation's expiry hint from the turns it still holds. -/
def refreshExpiry (conversationId : String) : Prog Store Unit := do
  match ← read fun store => store.head conversationId with
  | none => pure ()
  | some head =>
    let earliest ← forListed conversationId head.shards none (soonerHeld conversationId)
    write (.putHead { head with earliestExpiry := earliest })

/-- Take the rows of one published version away, where it read one of these conversations. -/
def withdrawVersion (conversations : List String) («by» name : String) (now : OffsetDateTime)
    (summary : ExportVersionSummary) : Prog Store ExportVersionSummary := do
  if summary.withdrawn then
    pure summary
  else
    match ← read fun store => store.manifest name summary.version with
    | none => pure summary
    | some manifest =>
      let affected := manifest.conversations.filter conversations.contains
      if affected = [] then
        pure summary
      else
        -- the shards first, then the manifest that says they are gone
        manifest.shards.forM fun shard => write (.deleteShard manifest.jobId shard.index)
        write (.putManifest { manifest with
          withdrawn := some { conversations := affected, «by» := «by», «at» := now } })
        pure { summary with withdrawn := true }

/-- Take the rows away from every published corpus that read one of these conversations. -/
def withdrawFor (conversations : List String) («by» : String) (now : OffsetDateTime) :
    Prog Store Nat := do
  if conversations = [] then
    pure 0
  else
    let names ← read fun store => store.exportIndexes.keys
    names.foldlM (fun withdrawn name => do
      match ← read fun store => store.exportIndexes[name]? with
      | none => pure withdrawn
      | some index =>
        let versions ← index.versions.mapM (withdrawVersion conversations «by» index.name now)
        let changed := versions.countP (·.withdrawn) - index.versions.countP (·.withdrawn)
        if changed = 0 then
          pure withdrawn
        else
          write (.putExportIndex { index with versions })
          pure (withdrawn + changed)) 0

/-- What a sweep or an erasure removed. -/
structure ErasureReport where
  turnsErased : Nat := 0
  conversationsTouched : Nat := 0
  alreadyErased : Nat := 0
  corporaWithdrawn : Nat := 0
  deriving DecidableEq, Repr

/-- One turn more that was erased, or had been. -/
def ErasureReport.count (report : ErasureReport) (erased : Bool) : ErasureReport :=
  if erased then { report with turnsErased := report.turnsErased + 1 }
  else { report with alreadyErased := report.alreadyErased + 1 }

/-- Erase everything in one conversation. -/
def eraseConversation (conversationId «by» : String) (now : OffsetDateTime) :
    Prog Store (Except Error ErasureReport) := do
  match validateName conversationId "conversation_id" with
  | .error error => pure (.error error)
  | .ok () =>
    match ← read fun store => store.head conversationId with
    | none => pure (.error (.notFound s!"the conversation {conversationId}"))
    | some head =>
      let report ← forListed conversationId head.shards
        ({ conversationsTouched := 1 } : ErasureReport) fun report turnId =>
          report.count <$> eraseTurn conversationId turnId .request «by» now
      refreshExpiry conversationId
      let withdrawn ← withdrawFor [conversationId] «by» now
      pure (.ok { report with corporaWithdrawn := withdrawn })

/-- Erase everything recorded about one consent subject, wherever it sits. -/
def eraseSubject (subject «by» : String) (now : OffsetDateTime) :
    Prog Store (Except Error ErasureReport) := do
  match validateName subject "subject" with
  | .error error => pure (.error error)
  | .ok () =>
    let entries ← read fun store => (store.subject subject).keys
    let (report, touched) ← entries.foldlM (fun (report, touched) entry => do
      match ← read fun store => (store.subject subject)[entry]? with
      | none => pure (report, touched)
      | some marker =>
        let erased ← eraseTurn marker.conversationId marker.turnId .request «by» now
        pure (report.count erased, touched.insert marker.conversationId ()))
      (({}, ∅) : ErasureReport × BTreeMap String Unit)
    touched.keys.forM refreshExpiry
    let withdrawn ← withdrawFor touched.keys «by» now
    pure (.ok { report with
      conversationsTouched := touched.size
      corporaWithdrawn := withdrawn })

/-! ## Sweeping -/

/-- Newest activity first, and ties broken by id. -/
def newestFirst (a b : ConversationHead) : Bool :=
  b.lastSeen < a.lastSeen || (a.lastSeen = b.lastSeen && a.conversationId ≤ b.conversationId)

/-- Every conversation the archive holds. -/
def conversations : Prog Store (List ConversationHead) := do
  let entries ← read fun store => store.conversations.keys
  let heads ← entries.mapM fun conversationId => read fun store => store.head conversationId
  pure ((heads.filterMap id).mergeSort newestFirst)

/-- Remove what has run out of one conversation. -/
def sweepConversation (now clock : OffsetDateTime)
    (swept : ErasureReport × BTreeMap String Unit) (head : ConversationHead) :
    Prog Store (ErasureReport × BTreeMap String Unit) := do
  if head.earliestExpiry.all (now < ·) then
    pure swept
  else
    let (report, touched) ← forListed head.conversationId head.shards (swept.1, false)
      fun (report, touched) turnId => do
        match ← read fun store => store.turn head.conversationId turnId with
        | none => pure (report, touched)
        | some turn =>
          if turn.expiresAt.all (now < ·) then
            pure (report, touched)
          else
            let erased ← eraseTurn head.conversationId turnId .expired "retention" clock
            pure (report.count erased, touched || erased)
    refreshExpiry head.conversationId
    pure (if touched then
      ({ report with conversationsTouched := report.conversationsTouched + 1 },
        swept.2.insert head.conversationId ())
    else (report, swept.2))

/-- Remove the content of everything whose declared retention has run out. -/
def sweep (now clock : OffsetDateTime) : Prog Store ErasureReport := do
  let heads ← conversations
  let (report, expired) ← heads.foldlM (sweepConversation now clock) ({}, ∅)
  let withdrawn ← withdrawFor expired.keys "retention" clock
  pure { report with corporaWithdrawn := withdrawn }

end Aiwatcher.Conversations
