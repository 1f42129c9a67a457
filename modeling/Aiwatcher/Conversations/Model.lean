import Aiwatcher.Library.Refusal
import Aiwatcher.Strings

/-!
# Aiwatcher.Conversations.Model

One message of a conversation, on whose consent it is kept, and what a deployment demands
(`turn.rs`, `policy.rs`, `redaction.rs`, `review.rs`).

What the scanner finds in a message and the digests are parameters.
-/

namespace Aiwatcher.Conversations

open Library Refusal

/-! ## Limits and errors -/

def MAX_NAME_BYTES : Nat := 256
def MAX_CONTENT_BYTES : Nat := 1024 * 1024
def MAX_PARTS : Nat := 256
def MAX_TOOL_RESULTS : Nat := 64

inductive Error where
  | invalid (text : String)
  /-- Content this archive will not take, with every reason. -/
  | rejected (problems : List String)
  | refused (text : String)
  | notFound (text : String)
  | tooLarge (what : String) (size limit : Nat)
  deriving DecidableEq, Repr

/-- A conversation id, a message id, a job name. -/
def validateName (value what : String) : Except Error Unit := do
  refuseIf (value = "" ∨ MAX_NAME_BYTES < byteLength value)
    (.invalid s!"{what} must be between 1 and 256 bytes")
  refuseIf (value.toList.any isControl) (.invalid s!"{what} must not contain control characters")

/-- A lowercase SHA-256 in hex. -/
def validateDigest (value what : String) : Except Error Unit :=
  refuseIf (¬ (byteLength value = 64 ∧
      value.toList.all fun c => c.isDigit || ('a' ≤ c && c ≤ 'f')))
    (.invalid s!"{what} must be a 64-character lowercase SHA-256")

/-! ## Turns -/

inductive Role where
  | system
  | developer
  | user
  | assistant
  | tool
  deriving DecidableEq, Repr

inductive ContentPart where
  | text (text : String)
  | reasoning (text : String)
  | toolCall (callId name arguments : String)
  | redacted (reason : String) (originalBytes : Nat) (originalDigest : String)
  | reference (uri mediaType digest : String)
  deriving DecidableEq, Repr

namespace ContentPart

def kind : ContentPart → String
  | text _ => "text"
  | reasoning _ => "reasoning"
  | toolCall .. => "tool_call"
  | redacted .. => "redacted"
  | reference .. => "reference"

def bytes : ContentPart → Nat
  | text words | reasoning words => byteLength words
  | toolCall callId name arguments => byteLength callId + byteLength name + byteLength arguments
  | redacted reason _ _ => byteLength reason
  | reference uri mediaType digest => byteLength uri + byteLength mediaType + byteLength digest

end ContentPart

structure ToolResult where
  callId : String
  name : String
  ok : Bool
  content : String
  error : String := ""
  deriving DecidableEq, Repr

/-- Where this turn came from, in the telemetry that is still on the log. -/
structure Provenance where
  runId : String := ""
  traceId : String := ""
  spanId : String := ""
  agentId : String := ""
  callId : String := ""
  model : String := ""
  prompt : String := ""
  deriving DecidableEq, Repr

structure PartSummary where
  kind : String
  bytes : Nat
  deriving DecidableEq, Repr

/-- The half that is encrypted. -/
structure TurnContent where
  parts : List ContentPart := []
  toolResults : List ToolResult := []
  deriving DecidableEq, Repr

namespace TurnContent

def bytes (content : TurnContent) : Nat :=
  (content.parts.map ContentPart.bytes).sum +
    (content.toolResults.map fun result => byteLength result.content + byteLength result.error).sum

def summarise (content : TurnContent) : List PartSummary :=
  content.parts.map fun part => ⟨part.kind, part.bytes⟩

end TurnContent

/-- Whether the content is still there. -/
inductive TurnState where
  | held
  | erased
  deriving DecidableEq, Repr

/-! ## Findings and reviews -/

inductive FindingKind where
  | pii
  | secret
  | unsafeOutput
  | duplicate
  | policy
  deriving DecidableEq, Repr

def FindingKind.asStr : FindingKind → String
  | .pii => "pii"
  | .secret => "secret"
  | .unsafeOutput => "unsafe"
  | .duplicate => "duplicate"
  | .policy => "policy"

structure Finding where
  kind : FindingKind
  rule : String
  part : Option Nat := none
  start : Option Nat := none
  length : Option Nat := none
  foundBy : String
  deriving DecidableEq, Repr

inductive PreferenceLabel where
  | chosen
  | rejected
  deriving DecidableEq, Repr

inductive ReviewState where
  | pending
  | approved
  | rejected
  deriving DecidableEq, Repr

structure TurnReview where
  state : ReviewState := .pending
  reviewer : String := ""
  note : String := ""
  decidedAt : Option OffsetDateTime := none
  preference : Option PreferenceLabel := none
  deriving DecidableEq, Repr

structure HumanFinding where
  kind : FindingKind
  rule : String
  deriving DecidableEq, Repr

structure ReviewRequest where
  state : ReviewState
  note : String := ""
  preference : Option PreferenceLabel := none
  findings : List HumanFinding := []
  deriving DecidableEq, Repr

namespace ReviewRequest

def validate (request : ReviewRequest) : Except Error Unit := do
  refuseIf (MAX_NAME_BYTES * 8 < byteLength request.note) (.invalid "the review note is too long")
  request.findings.forM fun finding => validateName finding.rule "a finding's rule"
  refuseIf (request.state = .rejected ∧ request.note = "" ∧ request.findings = [])
    (.invalid "a rejection needs a note or a finding: the reason is the record")

/-- The reviewer's findings, attributed to whoever is making the request. -/
def attributed (request : ReviewRequest) (reviewer : String) : List Finding :=
  request.findings.map fun finding =>
    { kind := finding.kind, rule := finding.rule, foundBy := reviewer }

end ReviewRequest

/-! ## Policies -/

inductive LawfulBasis where
  | unknown
  | consent
  | contract
  | legitimateInterest
  | synthetic
  deriving DecidableEq, Repr

def LawfulBasis.isStated (basis : LawfulBasis) : Bool := basis ≠ .unknown

inductive TrainingScope where
  | train
  | evaluate
  | share
  deriving DecidableEq, Repr

/-- Who this is about, on what basis, and what that permits. -/
structure ConsentRecord where
  subject : String := ""
  basis : LawfulBasis := .unknown
  reference : String := ""
  grantedAt : Option OffsetDateTime := none
  scope : List TrainingScope := []
  deriving DecidableEq, Repr

namespace ConsentRecord

/-- Everything missing from this record, as sentences. -/
def problems (consent : ConsentRecord) : List String :=
  (if consent.basis.isStated then [] else
    ["policy.consent.basis is required in a protected deployment: one of consent, " ++
      "contract, legitimate_interest, synthetic"]) ++
  (if consent.subject ≠ "" then [] else
    ["policy.consent.subject is required in a protected deployment: an erasure " ++
      "request has to be answerable"]) ++
  (if consent.reference ≠ "" then [] else
    ["policy.consent.reference is required in a protected deployment: name the " ++
      "record this claim comes from"]) ++
  (if consent.scope ≠ [] then [] else
    ["policy.consent.scope is required in a protected deployment: an empty scope " ++
      "permits nothing"])

end ConsentRecord

structure RetentionPolicy where
  ttlDays : Nat := 30
  policyId : String := ""
  deriving DecidableEq, Repr

/-- When content received now stops being readable. -/
def RetentionPolicy.expiresAt (retention : RetentionPolicy) (receivedAt : OffsetDateTime) :
    OffsetDateTime :=
  receivedAt + retention.ttlDays * 86400000000000

/-- What a producer says its own redaction hook did. -/
structure RedactionRecord where
  redactor : String
  rules : List String := []
  replaced : Nat := 0
  appliedAt : Option OffsetDateTime := none
  deriving DecidableEq, Repr

/-- Everything a producer asserts about one turn. -/
structure ContentPolicy where
  consent : ConsentRecord := {}
  retention : RetentionPolicy := {}
  redaction : Option RedactionRecord := none
  deriving DecidableEq, Repr

inductive PolicyMode where
  | «protected»
  | «open»
  deriving DecidableEq, Repr

/-- What this deployment demands, and the only thing here that outranks a caller. -/
structure ArchivePolicy where
  mode : PolicyMode := .«protected»
  maxTtlDays : Nat := 365
  rejectOnFinding : Bool := false
  deriving DecidableEq, Repr

namespace ArchivePolicy

/-- Every reason this deployment will not take this turn. -/
def check (policy : ArchivePolicy) (content : ContentPolicy) : List String :=
  if policy.mode = .«open» then []
  else content.consent.problems ++
    (if content.redaction.isSome then [] else
      ["policy.redaction is required in a protected deployment: name the hook that " ++
      "ran, even if it removed nothing"])

/-- The retention this deployment will apply, and whether it had to shorten what was asked for. -/
def clamp (policy : ArchivePolicy) (retention : RetentionPolicy) : RetentionPolicy × Bool :=
  if retention.ttlDays ≤ policy.maxTtlDays then (retention, false)
  else ({ retention with ttlDays := policy.maxTtlDays }, true)

end ArchivePolicy

/-! ## Requests -/

/-- What a producer sends. -/
structure RecordTurnRequest where
  conversationId : String
  messageId : String
  parentMessageId : Option String := none
  ordinal : Nat := 0
  role : Role
  content : TurnContent
  provenance : Provenance := {}
  policy : ContentPolicy := {}
  occurredAt : Option OffsetDateTime := none
  deriving DecidableEq, Repr

def RecordTurnRequest.validate (request : RecordTurnRequest) : Except Error Unit := do
  validateName request.conversationId "conversation_id"
  validateName request.messageId "message_id"
  request.parentMessageId.forM fun parent => do
    validateName parent "parent_message_id"
    refuseIf (parent = request.messageId) (.invalid "a turn cannot be its own parent")
  refuseIf (MAX_PARTS < request.content.parts.length)
    (.tooLarge "the turn's content parts" request.content.parts.length MAX_PARTS)
  refuseIf (MAX_TOOL_RESULTS < request.content.toolResults.length)
    (.tooLarge "the turn's tool results" request.content.toolResults.length MAX_TOOL_RESULTS)
  refuseIf (MAX_CONTENT_BYTES < request.content.bytes)
    (.tooLarge "the turn's content" request.content.bytes MAX_CONTENT_BYTES)
  request.content.parts.forM fun part =>
    match part with
    | .redacted _ _ originalDigest =>
      if originalDigest = "" then pure ()
      else validateDigest originalDigest "a redacted part's original_digest"
    | _ => pure ()

/-- What is read off a message: what the scanner finds in it, and the digests. -/
structure Reader where
  scan : TurnContent → List Finding
  digest : TurnContent → String
  /-- The archive's identity for a message of a conversation. -/
  turnId : String → String → String

end Aiwatcher.Conversations
