import Aiwatcher.Library.Table
import Aiwatcher.Strings

/-!
# Aiwatcher.Evaluations.Model

What a durable evaluation holds (`context.rs`, `reference.rs`, `result.rs` and the counts of
`traced.rs` in `aiwatcher-evaluation`), and the doubles its metrics are.

Rounding and digits of doubles are parameters; their order is read off their bits.
-/

namespace Aiwatcher.Evaluations

/-! ## Doubles -/

/-- The bits of an `f64`. -/
abbrev Double := UInt64

namespace Double

def isNan (x : Double) : Bool := decide (0x7FF0000000000000 < x &&& 0x7FFFFFFFFFFFFFFF)

/-- Where a number stands among the numbers; `-0.0` stands where `0.0` does. -/
def place (x : Double) : Int :=
  if x < 0x8000000000000000 then x.toNat else -((x.toNat : Int) - 0x8000000000000000)

def neg (x : Double) : Double := x ^^^ 0x8000000000000000

def isLt (x y : Double) : Bool := !x.isNan && !y.isNan && decide (place x < place y)

def isEq (x y : Double) : Bool := !x.isNan && !y.isNan && decide (place x = place y)

/-- `1e-12`. -/
def noise : Double := 0x3D719799812DEA11

theorem not_isLt_of_isEq {x y : Double} (h : isEq x y = true) : isLt x y = false := by
  simp only [isEq, isLt, Bool.and_eq_true, decide_eq_true_eq] at h ⊢
  simp [h.2]

theorem isEq_comm (x y : Double) : isEq x y = isEq y x := by
  simp [isEq, Bool.and_comm, eq_comm]

end Double

/-- The operations on doubles that round, and their digits. -/
structure Arithmetic where
  add : Double → Double → Double
  sub : Double → Double → Double
  display : Double → String

/-! ## What was measured, and how -/

inductive MetricDirection where
  | higher | lower | none
  deriving DecidableEq, Repr

inductive Aggregation where
  | mean | sum | min | max | rate | none
  deriving DecidableEq, Repr

inductive DatasetKind where
  | curation | annotations | conversations | external | assessments
  deriving DecidableEq, Repr

structure VersionReference where
  name : String
  version : String
  deriving DecidableEq, Repr

structure DatasetReference where
  kind : DatasetKind
  name : String
  version : String
  deriving DecidableEq, Repr

/-- A metric a scorer framework measured. -/
structure ExternalMeasure where
  adapter : VersionReference
  metric : String
  model : Option VersionReference
  deriving DecidableEq, Repr

structure MetricDefinition where
  name : String
  unit : String
  direction : MetricDirection
  aggregation : Aggregation
  measuredBy : Option ExternalMeasure
  deriving DecidableEq, Repr

structure JudgeConfiguration where
  provider : String
  model : VersionReference
  configuration : ArtifactRef
  calibrationDataset : DatasetReference
  readsArchive : Bool
  deriving DecidableEq, Repr

structure CalibrationPin where
  calibrationDataset : DatasetReference
  readsArchive : Bool
  deriving DecidableEq, Repr

structure EvaluationContext where
  dataset : DatasetReference
  caseManifest : ArtifactRef
  caseCount : UInt64
  split : String
  suite : VersionReference
  scorer : VersionReference
  inputSchema : ArtifactRef
  expectationsSchema : ArtifactRef
  judge : Option JudgeConfiguration
  externalCalibration : Option CalibrationPin
  metrics : List MetricDefinition
  deriving DecidableEq, Repr

/-- Of a manifest, its context and the code its variant pins. -/
structure EvaluationManifest where
  code : ArtifactRef
  context : EvaluationContext
  deriving DecidableEq, Repr

/-! ## Results -/

inductive EvidenceState where
  | complete | partly | missingArtifact | corruptArtifact | expired | deletedSource | forbidden
  deriving DecidableEq, Repr

inductive ResultStatus where
  | succeeded | failed | partly
  deriving DecidableEq, Repr

structure EvaluationReceipt where
  evaluationId : String
  version : String
  variantId : String
  contextId : String
  committedAt : Int
  expiresAt : Int
  deriving DecidableEq, Repr

structure ResultCounts where
  selected : Nat
  scored : Nat
  failed : Nat
  unscored : Nat
  deriving DecidableEq, Repr

/-- What the traces showed of the answers a worker generated. -/
structure GenerationTrace where
  answers : Nat
  named : Nat
  seen : Nat
  onPrompt : Option Nat
  onModel : Option Nat
  onWorkflow : Option Nat
  workflowUndeclared : Bool
  stepsUnread : Nat
  unaccountedTools : List String
  lostInTransport : Nat
  unknownRuns : Nat
  witnessedModel : Option Nat
  witnessedPrompt : Option Nat
  witnessedAnswer : Option Nat
  witnessedInput : Option Nat
  witnessedExchange : Option Nat
  chosen : Nat
  choicesRefused : List String
  askedElsewhere : Nat
  askedElsewhereUnpinned : Nat
  elsewhereUnread : Nat
  elsewhereUnreadBefore : Option String
  askedSinceSeconds : Option Nat
  selfWitnessed : Nat
  deriving DecidableEq, Repr

structure DurableEvaluation where
  receipt : EvaluationReceipt
  state : EvidenceState
  /-- Absent after erasure. -/
  manifest : Option EvaluationManifest
  status : Option ResultStatus
  counts : Option ResultCounts
  metrics : BTreeMap String Double
  reproducible : Bool
  traces : Option GenerationTrace

/-- Of a measured case, what a comparison reads. -/
structure CaseMeasurement where
  caseId : String
  metrics : BTreeMap String Double
  error : Option String
  traceId : Option String
  spanId : Option String

inductive EvaluationError where
  | invalid (field reason : String)
  | conflict
  | unavailable (state : EvidenceState)
  | storage (message : String)
  deriving DecidableEq, Repr

def require (ok : Bool) (field reason : String) : Except EvaluationError Unit :=
  if ok then .ok () else .error (.invalid field reason)

/-! ## The traces' words -/

namespace GenerationTrace

/-- Whether a count that may be absent is the answers'. -/
def covers (trace : GenerationTrace) (count : Option Nat) : Bool :=
  count.all (· == trace.answers)

def complete (trace : GenerationTrace) : Bool :=
  trace.seen == trace.answers && trace.covers trace.onPrompt && trace.covers trace.onModel &&
    trace.covers trace.onWorkflow

def witnessed (trace : GenerationTrace) : Bool :=
  trace.covers trace.witnessedModel && trace.covers trace.witnessedPrompt

def answersWitnessed (trace : GenerationTrace) : Bool :=
  trace.covers trace.witnessedAnswer && trace.covers trace.witnessedInput &&
    trace.covers trace.witnessedExchange

/-- A sentence where something is so. -/
def saidIf (wrong : Bool) (sentence : String) : List String := if wrong then [sentence] else []

def shortfall (trace : GenerationTrace) : List String :=
  saidIf (trace.named < trace.answers)
    s!"{trace.answers - trace.named} of {trace.answers} answers name no run they were made in" ++
  saidIf (trace.seen < trace.named)
    s!"{trace.named - trace.seen} of the {trace.named} runs the answers name were not on the log" ++
  saidIf (0 < trace.lostInTransport)
    (s!"{trace.lostInTransport} of those runs were lost in transport: their client counted as " ++
      "many runs opened for this result whose start never arrived") ++
  saidIf (0 < trace.unknownRuns)
    (s!"{trace.unknownRuns} of those runs are none a client opened for this result: no client's " ++
      "count passes over a run they could be, so the answers name runs made up or opened for " ++
      "something else") ++
  saidIf trace.workflowUndeclared
    ("the declaration of the pinned workflow names no node this step could read, so no run can " ++
      "be seen executing it") ++
  saidIf (0 < trace.stepsUnread)
    (s!"{trace.stepsUnread} seen runs took more node steps than a run's fold keeps, so the " ++
      "order of the rest was not read") ++
  [("call on the pinned prompt", trace.onPrompt), ("call on the pinned model", trace.onModel),
    ("execution of the pinned workflow", trace.onWorkflow)].flatMap fun
    | (what, some on) => saidIf (on < trace.seen)
        s!"{trace.seen - on} of {trace.seen} seen runs show no {what}"
    | (_, none) => []

def askedSinceShortOf (trace : GenerationTrace) (wanted : Nat) : Option String :=
  match trace.askedSinceSeconds with
  | some read =>
    if wanted ≤ read then none
    else some (s!"calls asked elsewhere were read from {read} s before the measurement " ++
      s!"started, not the {wanted} s wanted: a case asked in between was not looked for")
  | none =>
    some ("the result records no lookback for calls asked elsewhere — the variant pinning no " ++
      "prompt, none was looked for, or it was measured before a result recorded one — so " ++
      s!"none was from {wanted} s before the measurement started")

def unwitnessedAnswers (trace : GenerationTrace) : List String :=
  let denied := trace.chosen + trace.askedElsewhere + trace.elsewhereUnread
  (match trace.witnessedAnswer with
    | some on => saidIf (on < trace.answers)
        (s!"{trace.answers - on} of {trace.answers} answers are no reply a witness relayed for " ++
          "their run — made around the gateway, or not what the model said")
    | none => []) ++
  (match trace.witnessedInput with
    | some on => saidIf (on < trace.answers)
        (s!"{trace.answers - on} of {trace.answers} answers had no request a witness relayed " ++
          "holding their case's input")
    | none => []) ++
  (match trace.witnessedExchange with
    | some on => saidIf (on + denied < trace.answers)
        (s!"{trace.answers - on - denied} of {trace.answers} answers had no witnessed call " ++
          "relaying them — or each part the pinned response schema names, or each reply joined " ++
          "in the words the pinned answer_joined names — as its reply to a request that was " ++
          "nothing but the pinned prompt, rendered with their case's input, a reply or a tool's " ++
          "result relayed for a call so made, or a value taken out of one of those in steps the " ++
          "witness repeated — words beside those, a label's word the variant does not pin, or a " ++
          "value the application made, such as an answer to repeat, witness nothing")
    | none => []) ++
  saidIf (0 < trace.chosen)
    (s!"{trace.chosen} of {trace.answers} answers were chosen among replies their run's " ++
      "witnessed calls gave that went into nothing else — a choice the application made, which " ++
      "counts only where the generation config pins answer_chosen and that way picks the answer") ++
  trace.choicesRefused ++
  saidIf (!trace.unaccountedTools.isEmpty)
    ("answers holding a value nothing accounted for came from runs that called " ++
      ", ".intercalate trace.unaccountedTools ++ " with no witness, which may be where it came " ++
      "from — a tool the gateway relays or answers, or one on a host digesting under the " ++
      "witness's key, is accounted for") ++
  saidIf (0 < trace.askedElsewhere)
    (s!"{trace.askedElsewhere} of {trace.answers} answers' cases were asked on the pinned " ++
      "prompt in other runs while this measurement ran or before it, from when the run reads — " ++
      "replies the application could have seen before it answered, and chosen the run it " ++
      "answered in by") ++
  saidIf (0 < trace.elsewhereUnread)
    (s!"{trace.elsewhereUnread} of {trace.answers} answers could not be held to calls asked in " ++
      match trace.elsewhereUnreadBefore with
      | some date => s!"other runs before {date}, which the index of questions asked does not " ++
          "reach back to"
      | none => "other runs, because when this measurement started is not in the log's fold")

def unwitnessed (trace : GenerationTrace) : List String :=
  ([("served their call on the pinned model", trace.witnessedModel),
    ("found the pinned prompt in the request it relayed", trace.witnessedPrompt)].flatMap fun
    | (what, some on) => saidIf (on < trace.answers)
        (s!"{trace.answers - on} of {trace.answers} answers have no run published under a " ++
          s!"witness's credential saying it {what}")
    | (_, none) => []) ++
  saidIf (0 < trace.selfWitnessed)
    (s!"{trace.selfWitnessed} answers' serving runs were published under the application's own " ++
      "credential, which witnesses nothing — give the serving host a token of its own")

/-- What `complete` says, spelled out; `witnessed` and `answersWitnessed` read the same way. -/
theorem covers_eq_true {trace : GenerationTrace} {count : Option Nat} :
    trace.covers count = true ↔ ∀ n, count = some n → n = trace.answers := by
  cases count <;> simp [covers]

theorem askedSinceShortOf_eq_none {trace : GenerationTrace} {wanted : Nat} :
    trace.askedSinceShortOf wanted = none ↔
      ∃ read, trace.askedSinceSeconds = some read ∧ wanted ≤ read := by
  unfold askedSinceShortOf
  split <;> simp [*]

end GenerationTrace

end Aiwatcher.Evaluations
