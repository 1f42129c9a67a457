import Aiwatcher.Library.Programs
import Aiwatcher.Prompts.Model

/-!
# Aiwatcher.Prompts.Registry

The registry's operations on one prompt, one object of the store at a time
(`aiwatcher-prompts/src/lib.rs`).
-/

namespace Aiwatcher.Prompts

open Library Prog

/-- The objects of one prompt. -/
structure PromptObjects where
  head : Option PromptHead := none
  versions : BTreeMap String PromptVersion := ∅
  optimizations : BTreeMap String OptimizationRecord := ∅

namespace PromptObjects

def putHead (head : PromptHead) (objects : PromptObjects) : PromptObjects :=
  { objects with head := some head }

def putVersion (version : PromptVersion) (objects : PromptObjects) : PromptObjects :=
  { objects with versions := objects.versions.insert version.versionId version }

def putOptimization (record : OptimizationRecord) (objects : PromptObjects) : PromptObjects :=
  { objects with optimizations := objects.optimizations.insert record.optimizationId record }

end PromptObjects

/-- What a publish did. -/
structure Published where
  version : PromptVersion
  created : Bool
  head : PromptHead

section

variable (config : RegistryConfig) (registrar : Registrar) (name : String)

/-! ## Reads -/

def readVersion (version : String) : Prog PromptObjects (Option PromptVersion) :=
  read fun objects => objects.versions[version]?

/-- One optimisation record. -/
def optimization (optimizationId : String) :
    Prog PromptObjects (Except RegistryError (Option OptimizationRecord)) := do
  match validateIdentifier optimizationId with
  | .error error => pure (.error error)
  | .ok optimizationId => .ok <$> read fun objects => objects.optimizations[optimizationId]?

/-- The version a label points at, or the current one. -/
def resolve (label : Option String) : Prog PromptObjects (Except RegistryError PromptVersion) := do
  match ← read (·.head) with
  | none => pure (.error (.unknownPrompt name))
  | some head =>
    match label.elim head.current (head.labels[·]?) with
    | none => pure (.error (.unknownPrompt name))
    | some version =>
      match ← readVersion version with
      | none => pure (.error (.unknownVersion name version))
      | some version => pure (.ok version)

/-! ## Internals -/

/-- Write a version, unless that exact text is already stored. -/
def storeVersion (version : PromptVersion) : Prog PromptObjects (PromptVersion × Bool) := do
  match ← readVersion version.versionId with
  | some existing => pure (existing, false)
  | none =>
    write (.putVersion version)
    pure (version, true)

/-- Put a version summary at the front of the head's index. -/
def indexVersion (head : PromptHead) (version : PromptVersion) (now : OffsetDateTime) :
    PromptHead :=
  { head with
    versions := (version.summary :: head.versions.filter (·.versionId ≠ version.versionId)).take
      config.maxVersionsIndexed
    updatedAt := now }

def indexOptimization (head : PromptHead) (record : OptimizationRecord) : PromptHead :=
  { head with
    optimizations := (record.summary registrar :: head.optimizations.filter
      (·.optimizationId ≠ record.optimizationId)).take config.maxOptimizationsIndexed
    updatedAt := record.endedAt.getD record.startedAt }

/-- Refuse `production` on a candidate the verdict did not admit. -/
def checkAdmitted (version : PromptVersion) : Prog PromptObjects (Except RegistryError Unit) := do
  match version.origin with
  | .authored => pure (.ok ())
  | .optimized optimizationId _ =>
    let refused (reason : String) : Except RegistryError Unit :=
      .error (.notAdmitted name version.versionId optimizationId reason)
    match ← optimization optimizationId with
    | .error error => pure (.error error)
    | .ok none => pure (refused "no verdict was recorded for it")
    | .ok (some record) =>
      if record.outcome = .admitted then pure (.ok ())
      else pure (refused (record.reason.elim "it was rejected" (·.text)))

/-! ## Publishing -/

/-- The version of a request, before it is stored. -/
def requestedVersion (request : PublishRequest) (now : OffsetDateTime) :
    Except RegistryError PromptVersion := do
  refuseIf (config.maxTextBytes < byteLength request.text)
    (.tooLarge "the prompt text" (byteLength request.text) config.maxTextBytes)
  let version ← PromptVersion.new registrar name request.text now
  pure { version with
    author := request.author
    notes := request.notes
    model := request.model
    parent := request.parent
    metadata := request.metadata }

/-- Only `production` answers to the verdict. -/
def checkLabel (version : PromptVersion) (label : String) :
    Prog PromptObjects (Except RegistryError Unit) :=
  if label = PRODUCTION_LABEL then checkAdmitted name version else pure (.ok ())

/-- The label a request moves, checked. -/
def labelOf (version : PromptVersion) (label : Option String) :
    Prog PromptObjects (Except RegistryError Unit) :=
  match label with
  | none => pure (.ok ())
  | some label =>
    match validateIdentifier label with
    | .error error => pure (.error error)
    | .ok label => checkLabel name version label

/-- A label moved to a version. -/
def PromptHead.pointed (head : PromptHead) (label : Option String) (version : String) :
    PromptHead :=
  { head with labels := label.elim head.labels (head.labels.insert · version) }

/-- The head with what a request says of the prompt. -/
def described (head : PromptHead) (request : PublishRequest) : PromptHead :=
  { head with
    description := request.description.or head.description
    tags := request.tags.getD head.tags }

/-- Publish a version. -/
def publish (request : PublishRequest) (now : OffsetDateTime) :
    Prog PromptObjects (Except RegistryError Published) := do
  match requestedVersion config registrar name request now with
  | .error error => pure (.error error)
  | .ok version =>
    let (version, created) ← storeVersion version
    let held ← read (·.head)
    let head := described (held.getD (.opening name now)) request
    match ← labelOf name version request.label with
    | .error error => pure (.error error)
    | .ok () =>
      let head := indexVersion config (head.pointed request.label version.versionId) version
        now
      write (.putHead head)
      pure (.ok { version, created, head })

/-- Point a label at a version. -/
def setLabel (label version : String) (now : OffsetDateTime) :
    Prog PromptObjects (Except RegistryError PromptHead) := do
  match validateIdentifier label with
  | .error error => pure (.error error)
  | .ok label =>
    match ← read (·.head) with
    | none => pure (.error (.unknownPrompt name))
    | some head =>
      match ← readVersion version with
      | none => pure (.error (.unknownVersion name version))
      | some stored =>
        match ← checkLabel name stored label with
        | .error error => pure (.error error)
        | .ok () =>
          let head := { head.pointed (some label) version with updatedAt := now }
          write (.putHead head)
          pure (.ok head)

/-! ## Recording an optimisation -/

/-- The id and the candidate of a request, against its baseline. -/
def requestedCandidate (request : OptimizationRequest) (baseline : PromptVersion)
    (now : OffsetDateTime) : Except RegistryError (String × PromptVersion) := do
  let startedAt := request.startedAt.getD now
  let optimizationId ← match request.optimizationId with
    | some supplied => validateIdentifier supplied
    | none => pure (deriveOptimizationId registrar name request.algorithm request.baseline
        (registrar.versionId request.candidateText) startedAt)
  refuseIf (config.maxTextBytes < byteLength request.candidateText)
    (.tooLarge "the candidate text" (byteLength request.candidateText) config.maxTextBytes)
  let candidate ← PromptVersion.new registrar name request.candidateText now
  let against := String.ofList (baseline.versionId.toList.take 12)
  pure (optimizationId, { candidate with
    parent := some baseline.versionId
    model := baseline.model
    origin := .optimized optimizationId request.algorithm
    notes := some s!"candidate from {request.algorithm} against {against}" })

/-- What the registry decides about a candidate. -/
def verdictOf (request : OptimizationRequest) (baseline candidate : PromptVersion) : Verdict :=
  OptimizationRecord.verdict registrar baseline.versionId candidate.versionId
    (variablesLost baseline.text candidate.text) request.primaryMetric request.test

def recordOf (request : OptimizationRequest) (optimizationId : String)
    (baseline candidate : PromptVersion) (now : OffsetDateTime) : OptimizationRecord where
  optimizationId
  prompt := name
  algorithm := request.algorithm
  baseline := baseline.versionId
  candidate := candidate.versionId
  primaryMetric := request.primaryMetric
  dev := request.dev
  test := request.test
  dataset := request.dataset
  variablesLost := variablesLost baseline.text candidate.text
  outcome := (verdictOf registrar request baseline candidate).outcome
  reason := (verdictOf registrar request baseline candidate).reason
  startedAt := request.startedAt.getD now
  endedAt := some now
  durationMs := request.durationMs
  iterations := request.iterations
  evaluationId := request.evaluationId
  baselineEvaluation := request.baselineEvaluation
  candidateEvaluation := request.candidateEvaluation
  report := request.report

/-- Record an optimisation, publishing its candidate as a version. -/
def recordOptimization (request : OptimizationRequest) (now : OffsetDateTime) :
    Prog PromptObjects (Except RegistryError OptimizationRecord) := do
  let size := request.report.elim 0 byteLength
  if config.maxReportBytes < size then
    pure (.error (.tooLarge "the optimisation report" size config.maxReportBytes))
  else
    match ← readVersion request.baseline with
    | none => pure (.error (.unknownVersion name request.baseline))
    | some baseline =>
      match requestedCandidate config registrar name request baseline now with
      | .error error => pure (.error error)
      | .ok (optimizationId, candidate) =>
        let (candidate, _) ← storeVersion candidate
        let record := recordOf registrar name request optimizationId baseline candidate now
        write (.putOptimization record)
        let held ← read (·.head)
        let head := indexVersion config (held.getD (.opening name now)) candidate now
        let head := indexOptimization config registrar head record
        let verdict := verdictOf registrar request baseline candidate
        let label := if request.promote ∧ verdict.isAdmitted then some PRODUCTION_LABEL
          else none
        write (.putHead (head.pointed label candidate.versionId))
        pure (.ok record)

/-! ## Rebuilding -/

/-- In which order the objects under a prefix come back. -/
structure Arrival where
  order : List String → List String
  perm : ∀ keys, (order keys).Perm keys

/-- Every object under a prefix. -/
def readAll {β : Type} (objectsOf : PromptObjects → BTreeMap String β) (arrival : Arrival) :
    Prog PromptObjects (List β) := do
  let keys ← read fun objects => (objectsOf objects).keys
  let found ← (arrival.order keys).mapM fun key => read fun objects => (objectsOf objects)[key]?
  pure (found.filterMap id)

/-- The head as the stored objects say. -/
def rebuilt (versions : List PromptVersion) (optimizations : List OptimizationRecord)
    (existing : Option PromptHead) (now : OffsetDateTime) : PromptHead :=
  let versions := versions.mergeSort fun a b => b.createdAt ≤ a.createdAt
  let optimizations := optimizations.mergeSort fun a b => b.startedAt ≤ a.startedAt
  { name
    description := existing.bind (·.description)
    tags := existing.elim [] (·.tags)
    labels := existing.elim ∅ fun head =>
      head.labels.filter fun _ version => versions.any (·.versionId = version)
    createdAt := versions.getLast?.elim now (·.createdAt)
    updatedAt := now
    versions := (versions.take config.maxVersionsIndexed).map (·.summary)
    optimizations :=
      (optimizations.take config.maxOptimizationsIndexed).map (·.summary registrar) }

/-- Re-derive the head by listing what is actually stored. -/
def rebuild (arrival : Arrival) (now : OffsetDateTime) :
    Prog PromptObjects (Except RegistryError PromptHead) := do
  let versions ← readAll (·.versions) arrival
  let optimizations ← readAll (·.optimizations) arrival
  if versions = [] ∧ optimizations = [] then
    pure (.error (.unknownPrompt name))
  else
    let existing ← read (·.head)
    let head := rebuilt config registrar name versions optimizations existing now
    write (.putHead head)
    pure (.ok head)

end

end Aiwatcher.Prompts
