import Aiwatcher.Library.Refusal
import Aiwatcher.Library.Table
import Aiwatcher.Strings

/-!
# Aiwatcher.Prompts.Model

A prompt's versions, the optimisations recorded against it, and its head (`aiwatcher-core`'s
`prompts.rs`, and the requests of `aiwatcher-prompts`).

The digest of a text and of an optimisation, and the arithmetic of scores, are parameters.
-/

namespace Aiwatcher.Prompts

open Library

/-- The label a deployment reads to answer "which version is live". -/
def PRODUCTION_LABEL : String := "production"

/-- The bits of an `f64`. -/
abbrev Double := UInt64

/-- What is worked out of texts and scores elsewhere: `sha256`, and the arithmetic of doubles. -/
structure Registrar where
  /-- `PromptVersionId::of`. -/
  versionId : String → String
  /-- The digest `derive_optimization_id` takes of its input. -/
  digest : String → String
  sub : Double → Double → Double
  /-- Above `1e-12`. -/
  aboveNoise : Double → Bool

/-! ## Variables -/

/-- What stands before a character that comes twice, and behind it. -/
def splitPair (c : Char) : List Char → Option (List Char × List Char)
  | a :: b :: rest =>
    if a = c ∧ b = c then some ([], rest)
    else (splitPair c (b :: rest)).map fun found => (a :: found.1, found.2)
  | _ => none

/-- A letter, and then letters, digits and `_`. -/
def isVariable (name : List Char) : Bool :=
  match name with
  | [] => false
  | first :: rest => first.isAlpha && rest.all fun c => c.isAlphanum || c = '_'

/-- The placeholders of what is left of a text, behind the ones found. -/
def variablesFrom : Nat → Option Char → List Char → List String → List String
  | 0, _, _, found => found
  | fuel + 1, last, text, found =>
    match splitPair '{' text with
    | none => found
    | some (before, after) =>
      match splitPair '}' after with
      | none => found
      | some (inner, rest) =>
        let name := trim (String.ofList inner)
        if before.getLast?.or last = some '{' ∨ ¬ isVariable name.toList ∨
            name ∈ found then
          variablesFrom fuel (some '}') rest found
        else
          variablesFrom fuel (some '}') rest (found ++ [name])

/-- The placeholders in the order the text first places each. -/
def variablesInOrder (text : String) : List String :=
  variablesFrom text.length none text.toList []

def variablesOf (text : String) : List String :=
  (variablesInOrder text).mergeSort fun a b => a ≤ b

/-- Variables the baseline declares and the candidate does not. -/
def variablesLost (baseline candidate : String) : List String :=
  (variablesOf baseline).filter fun name => name ∉ variablesOf candidate

/-! ## Versions -/

/-- Where a version came from. -/
inductive VersionOrigin where
  | authored
  | optimized (optimizationId algorithm : String)
  deriving DecidableEq, Repr

/-- A version without its text. -/
structure PromptVersionSummary where
  versionId : String
  createdAt : OffsetDateTime
  author : Option String
  notes : Option String
  model : Option String
  «variables» : List String
  parent : Option String
  origin : VersionOrigin
  sizeBytes : Nat
  deriving DecidableEq, Repr

/-- One immutable version of a prompt. -/
structure PromptVersion where
  name : String
  versionId : String
  text : String
  createdAt : OffsetDateTime
  author : Option String := none
  notes : Option String := none
  model : Option String := none
  «variables» : List String
  parent : Option String := none
  origin : VersionOrigin := .authored
  metadata : List (String × String) := []
  deriving DecidableEq, Repr

def PromptVersion.summary (version : PromptVersion) : PromptVersionSummary where
  versionId := version.versionId
  createdAt := version.createdAt
  author := version.author
  notes := version.notes
  model := version.model
  «variables» := version.variables
  parent := version.parent
  origin := version.origin
  sizeBytes := byteLength version.text

/-! ## Optimisations -/

/-- One metric, on the baseline and on the candidate. -/
structure Score where
  metric : String
  baseline : Option Double
  candidate : Option Double
  deriving DecidableEq, Repr

inductive OptimizationOutcome where
  | admitted
  | rejected
  deriving DecidableEq, Repr

inductive RejectionReason where
  | noHeldOutImprovement
  | noHeldOutMeasurement
  | variablesLost
  | noChange
  deriving DecidableEq, Repr

def RejectionReason.text : RejectionReason → String
  | .noHeldOutImprovement => "the held-out score did not improve"
  | .noHeldOutMeasurement => "nothing was measured on the held-out split"
  | .variablesLost => "the candidate dropped a variable the baseline declared"
  | .noChange => "the candidate is identical to the baseline"

/-- The outcome and, when there is one, why. -/
structure Verdict where
  outcome : OptimizationOutcome
  reason : Option RejectionReason
  deriving DecidableEq, Repr

namespace Verdict

def admitted : Verdict := ⟨.admitted, none⟩

def rejected (reason : RejectionReason) : Verdict := ⟨.rejected, some reason⟩

def isAdmitted (verdict : Verdict) : Bool := verdict.outcome = .admitted

end Verdict

structure OptimizationSummary where
  optimizationId : String
  algorithm : String
  baseline : String
  candidate : String
  primaryMetric : String
  devDelta : Option Double
  testDelta : Option Double
  testScore : Option Double
  overfitGap : Option Double
  dataset : Option String
  variablesLost : List String
  outcome : OptimizationOutcome
  reason : Option RejectionReason
  startedAt : OffsetDateTime
  durationMs : Option Int
  iterations : Option Nat
  evaluationId : Option String
  deriving DecidableEq, Repr

/-- One optimisation run against one prompt. -/
structure OptimizationRecord where
  optimizationId : String
  prompt : String
  algorithm : String
  baseline : String
  candidate : String
  primaryMetric : String
  dev : List Score
  test : List Score
  dataset : Option String
  variablesLost : List String
  outcome : OptimizationOutcome
  reason : Option RejectionReason
  startedAt : OffsetDateTime
  endedAt : Option OffsetDateTime
  durationMs : Option Int
  iterations : Option Nat
  evaluationId : Option String
  baselineEvaluation : Option String
  candidateEvaluation : Option String
  /-- The JSON the report is written as. -/
  report : Option String
  deriving DecidableEq, Repr

section

variable (registrar : Registrar)

/-- `candidate - baseline`, and `none` when either side is missing. -/
def Score.delta (score : Score) : Option Double := do
  let candidate ← score.candidate
  let baseline ← score.baseline
  pure (registrar.sub candidate baseline)

/-- Whether the candidate beat the baseline by more than noise. -/
def Score.improves (score : Score) : Bool := (score.delta registrar).any registrar.aboveNoise

namespace OptimizationRecord

/-- Decide the outcome from the evidence. -/
def verdict (baseline candidate : String) (variablesLost : List String) (primaryMetric : String)
    (test : List Score) : Verdict :=
  if baseline = candidate then .rejected .noChange
  else if variablesLost ≠ [] then .rejected .variablesLost
  else
    match test.find? (·.metric = primaryMetric) with
    | none => .rejected .noHeldOutMeasurement
    | some primary =>
      if (primary.delta registrar).isNone then .rejected .noHeldOutMeasurement
      else if primary.improves registrar then .admitted
      else .rejected .noHeldOutImprovement

/-- How far the dev gain outran the held-out gain on the primary metric. -/
def overfitGap (record : OptimizationRecord) : Option Double := do
  let dev ← (← record.dev.find? (·.metric = record.primaryMetric)).delta registrar
  let test ← (← record.test.find? (·.metric = record.primaryMetric)).delta registrar
  pure (registrar.sub dev test)

def summary (record : OptimizationRecord) : OptimizationSummary where
  optimizationId := record.optimizationId
  algorithm := record.algorithm
  baseline := record.baseline
  candidate := record.candidate
  primaryMetric := record.primaryMetric
  devDelta := (record.dev.find? (·.metric = record.primaryMetric)).bind (·.delta registrar)
  testDelta := (record.test.find? (·.metric = record.primaryMetric)).bind (·.delta registrar)
  testScore := (record.test.find? (·.metric = record.primaryMetric)).bind (·.candidate)
  overfitGap := record.overfitGap registrar
  dataset := record.dataset
  variablesLost := record.variablesLost
  outcome := record.outcome
  reason := record.reason
  startedAt := record.startedAt
  durationMs := record.durationMs
  iterations := record.iterations
  evaluationId := record.evaluationId

end OptimizationRecord

end

/-! ## The head -/

/-- A prompt's mutable head. -/
structure PromptHead where
  name : String
  description : Option String := none
  labels : BTreeMap String String := ∅
  tags : List String := []
  createdAt : OffsetDateTime
  updatedAt : OffsetDateTime
  /-- Newest first. -/
  versions : List PromptVersionSummary := []
  optimizations : List OptimizationSummary := []

namespace PromptHead

def opening (name : String) (now : OffsetDateTime) : PromptHead where
  name
  createdAt := now
  updatedAt := now

/-- The version a deployment reading `production` would get, falling back to the newest version
when no label has been moved yet. -/
def current (head : PromptHead) : Option String :=
  head.labels[PRODUCTION_LABEL]?.or (head.versions.head?.map (·.versionId))

end PromptHead

/-! ## Requests -/

inductive RegistryError where
  | unknownPrompt (name : String)
  | unknownVersion (name version : String)
  | notAdmitted (name version optimizationId reason : String)
  | emptyText
  | tooLarge (what : String) (size limit : Nat)
  | invalidIdentifier (value : String)
  deriving DecidableEq, Repr

/-- What the registry is allowed to hold and index. -/
structure RegistryConfig where
  maxTextBytes : Nat := 256 * 1024
  maxReportBytes : Nat := 1024 * 1024
  maxVersionsIndexed : Nat := 200
  maxOptimizationsIndexed : Nat := 50
  deriving DecidableEq, Repr

/-- Publish a version, and optionally update the prompt around it. -/
structure PublishRequest where
  text : String
  author : Option String := none
  notes : Option String := none
  model : Option String := none
  parent : Option String := none
  metadata : List (String × String) := []
  description : Option String := none
  tags : Option (List String) := none
  label : Option String := none
  deriving DecidableEq, Repr

/-- Record what an optimiser did to a prompt. -/
structure OptimizationRequest where
  optimizationId : Option String := none
  algorithm : String
  baseline : String
  candidateText : String
  primaryMetric : String
  dev : List Score := []
  test : List Score := []
  dataset : Option String := none
  evaluationId : Option String := none
  baselineEvaluation : Option String := none
  candidateEvaluation : Option String := none
  startedAt : Option OffsetDateTime := none
  durationMs : Option Int := none
  iterations : Option Nat := none
  report : Option String := none
  promote : Bool := false
  deriving DecidableEq, Repr

/-- Identifiers that become object keys and path segments. -/
def validateIdentifier (value : String) : Except RegistryError String :=
  if value ≠ "" ∧ byteLength value ≤ 128 ∧
      value.toList.all (fun c => c.isAlphanum || c = '.' || c = '_' || c = '-') ∧
      value.toList.head? ≠ some '.' ∧ value.toList.head? ≠ some '-' then
    .ok value
  else
    .error (.invalidIdentifier value)

/-- Build a version from its text, deriving the id and the variables. -/
def PromptVersion.new (registrar : Registrar) (name text : String) (createdAt : OffsetDateTime) :
    Except RegistryError PromptVersion :=
  if isBlank text then .error .emptyText
  else .ok {
    name
    versionId := registrar.versionId text
    text
    createdAt
    «variables» := variablesOf text }

/-- An id derived from what it identifies. -/
def deriveOptimizationId (registrar : Registrar) (name algorithm baseline candidate : String)
    (startedAt : OffsetDateTime) : String :=
  "opt-" ++ String.ofList ((registrar.digest s!"{name}|{algorithm}|{baseline}|{candidate}|{
    startedAt / 1000000000}").toList.take 20)

end Aiwatcher.Prompts
