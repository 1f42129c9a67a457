import Aiwatcher.Strings

/-!
# Aiwatcher.Datasets.Pipeline

A curation as a chain of blocks, and the rules that make one runnable (`pipeline.rs`,
`human_input.rs`).  Every rule reports every problem at once.
-/

namespace Aiwatcher.Datasets

/-! ## Engines -/

/-- Whose language a transform is written in. -/
inductive QueryEngine where
  | flow
  | dataFusion
  | duckDb
  deriving DecidableEq, Repr

namespace QueryEngine

def asStr : QueryEngine → String
  | flow => "flow"
  | dataFusion => "datafusion"
  | duckDb => "duckdb"

/-- Its name in a sentence somebody reads. -/
def label : QueryEngine → String
  | flow => "Flow PHP"
  | dataFusion => "DataFusion"
  | duckDb => "DuckDB"

/-- Every engine, in the order a refusal lists them. -/
def all : List QueryEngine := [flow, dataFusion, duckDb]

end QueryEngine

/-! ## Blocks -/

/-- What one block is, and everything that block kind needs. -/
inductive BlockSpec where
  | source (dataset : String) (arguments : BTreeMap String String)
  | transform (steps : String) (engine : QueryEngine)
  | notebook (notebook : String) (revision : Option String) (params : BTreeMap String Value)
  | approval (prompt role : String) (choices : List String) (timeoutSeconds : Option UInt64)
      (onTimeout : OnTimeout)
  | view (dataset : Option String)

namespace BlockSpec

/-- The word this kind is called by, for a message a person reads. -/
def kind : BlockSpec → String
  | source .. => "source"
  | transform .. => "transform"
  | notebook .. => "notebook"
  | approval .. => "approval"
  | view .. => "view"

def isSource : BlockSpec → Bool
  | source .. => true
  | _ => false

def isTransform : BlockSpec → Bool
  | transform .. => true
  | _ => false

/-- The engine a transform is written for. -/
def engine : BlockSpec → Option QueryEngine
  | transform _ engine => some engine
  | _ => none

end BlockSpec

/-- Where a block sits on the canvas, as the bits of two doubles. -/
structure BlockPosition where
  x : UInt64
  y : UInt64
  deriving DecidableEq, Repr

structure PipelineBlock where
  id : String
  title : String
  position : BlockPosition
  spec : BlockSpec

structure PipelineEdge where
  fromId : String
  toId : String
  deriving DecidableEq, Repr

structure CurationPipeline where
  name : String
  description : String
  blocks : List PipelineBlock
  edges : List PipelineEdge
  revision : String
  savedAt : OffsetDateTime

structure SavePipelineRequest where
  name : String
  description : String
  blocks : List PipelineBlock
  edges : List PipelineEdge

inductive RegistryError where
  | invalid (text : String)
  | rejected (problems : List String)
  | tooLarge (what : String) (size limit : Nat)
  deriving DecidableEq, Repr

/-! ## What is wrong with a name -/

def maxNameBytes : Nat := 160
def maxDescriptionBytes : Nat := 8192
def maxPipelineBytes : Nat := 131072
def maxBlocks : Nat := 24
def maxTitleBytes : Nat := 120
def maxSettingsBytes : Nat := 32768
def maxIdLength : Nat := 40

def isNameChar (c : Char) : Bool := c.isAlphanum || c == '-' || c == '_' || c == '.'

def validateName (name what : String) : Except RegistryError Unit :=
  if name.isEmpty || maxNameBytes < byteLength name then
    .error (.invalid s!"a {what} name must be between 1 and {maxNameBytes} bytes")
  else if (split name '/').all fun segment =>
      segment.toList.head?.any (·.isAlphanum) && segment.toList.tail.all isNameChar then .ok ()
  else .error (.invalid (s!"{what} name segments must start with a letter or number and " ++
    "contain only letters, numbers, '.', '_' or '-'"))

def isBlockId (id : String) : Bool :=
  !id.isEmpty && byteLength id ≤ maxIdLength &&
    id.toList.all fun c => c.isLower || c.isDigit || c == '-'

def isNotebookName (name : String) : Bool :=
  byteLength name ≤ 64 && name.toList.head?.any (·.isLower) &&
    name.toList.tail.all fun c => c.isLower || c.isDigit || c == '_'

def isHexDigit (c : Char) : Bool :=
  c.isDigit || ('a' ≤ c && c ≤ 'f') || ('A' ≤ c && c ≤ 'F')

def isDigest (value : String) : Bool :=
  byteLength value == 64 && value.toList.all isHexDigit

/-! ## What is wrong with a question -/

def answerableRole : String := "editor"

def answerableRoles : List String := [answerableRole, "admin"]

def maxTimeoutSeconds : UInt64 := 1209600
def maxPromptBytes : Nat := 4096
def maxChoices : Nat := 8
def maxChoiceBytes : Nat := 80

/-- What is wrong with a gate's clock and what it does when the clock runs out. -/
def deadlineProblems (subject : String) (choices : List String) (timeoutSeconds : Option UInt64)
    (onTimeout : OnTimeout) : List String :=
  let clock := match timeoutSeconds, onTimeout with
    | none, .fail => []
    | none, _ => [s!"{subject} says what to do on a timeout and names no deadline, so nothing " ++
        "would ever do it — give it a timeout, or leave it waiting"]
    | some seconds, _ =>
      if seconds = 0 then
        [s!"{subject}'s deadline is zero seconds, which is a question that times out before " ++
          "anybody is shown it. A gate that should not wait is a gate nobody needs"]
      else if maxTimeoutSeconds < seconds then
        [s!"{subject} waits {seconds} seconds; the limit is {maxTimeoutSeconds}. A gate " ++
          "meant to wait indefinitely names no deadline at all"]
      else []
  let answer := match onTimeout with
    | .answer response =>
      if !choices.isEmpty && !response.asStr.any choices.contains then
        [s!"{subject} answers its own timeout with something it does not offer. The answer a " ++
          "timeout writes is one of the choices, because that is what an answer to this " ++
          "question is"]
      else []
    | _ => []
  clock ++ answer

/-- Everything wrong with one authored question, all of it at once. -/
def questionProblems (subject prompt role : String) (choices : List String)
    (timeoutSeconds : Option UInt64) (onTimeout : OnTimeout) : List String :=
  deadlineProblems subject choices timeoutSeconds onTimeout ++
  (if isBlank prompt then
    [s!"{subject} does not say what it is asking. A gate whose question is blank is a run " ++
      "stopped for a reason nobody can read"] else []) ++
  (if maxPromptBytes < byteLength prompt then
    [s!"{subject}'s question is {byteLength prompt} bytes; the limit is {maxPromptBytes}"]
    else []) ++
  (if !answerableRoles.contains role then
    [s!"{subject} asks for the '{role}' role. A gate is answered by an '{answerableRole}' or, " ++
      "where a decision needs one, an 'admin' — it raises that floor and never lowers it, so " ++
      "anything else here would promise a check the answer route is not going to make"]
    else []) ++
  (if maxChoices < choices.length then
    [s!"{subject} offers {choices.length} answers; the limit is {maxChoices}"] else []) ++
  (if choices.any fun choice => isBlank choice || maxChoiceBytes < byteLength choice then
    [s!"{subject}'s answers are each a word or two, at most {maxChoiceBytes} bytes, and " ++
      "none of them blank"] else []) ++
  (if choices.dedup.length ≠ choices.length then
    [s!"{subject} offers the same answer twice"] else [])

/-! ## What is wrong with a block -/

/-- The bytes of some settings, written as JSON. -/
def settingsBytes (addressing : Addressing) (params : BTreeMap String Value) : Nat :=
  byteLength (addressing.json (.object params.toList))

/-- What is wrong with one block, whatever it is connected to. -/
def blockProblems (addressing : Addressing) (block : PipelineBlock) : List String :=
  (if maxTitleBytes < byteLength block.title then
    [s!"{block.id}'s title is {byteLength block.title} bytes; the limit is {maxTitleBytes}"]
    else []) ++
  match block.spec with
  | .source dataset arguments =>
    let size := ((BTreeMap.values arguments).map byteLength).sum
    (if isBlank dataset then [s!"{block.id} does not say which dataset it reads"] else []) ++
    (if maxSettingsBytes < size then
      [s!"{block.id}'s read() arguments are {size} bytes; the limit is {maxSettingsBytes}"]
      else [])
  | .transform steps engine =>
    if maxPipelineBytes < byteLength steps then
      [s!"{block.id}'s {engine.label} steps are {byteLength steps} bytes; the limit is " ++
        s!"{maxPipelineBytes}"]
    else []
  | .notebook notebook revision params =>
    let size := settingsBytes addressing params
    (if !isNotebookName notebook then
      [s!"'{notebook}' is not a notebook name: lower-case letters, digits and underscores, " ++
        "starting with a letter"] else []) ++
    (if revision.any fun revision => !isDigest revision then
      [s!"{block.id}'s pinned notebook revision is not a sha256 digest"] else []) ++
    (if maxSettingsBytes < size then
      [s!"{block.id}'s settings are {size} bytes; the limit is {maxSettingsBytes}"] else [])
  | .approval prompt role choices timeoutSeconds onTimeout =>
    questionProblems block.id prompt role choices timeoutSeconds onTimeout
  | .view dataset =>
    match dataset with
    | none => []
    | some dataset =>
      match validateName dataset "dataset" with
      | .ok () => []
      | .error _ => [s!"{block.id} publishes to '{dataset}', which is not a dataset name"]

/-! ## What is wrong with a chain -/

/-- A transform that cannot reach its rows, and what is in the way. -/
def flowAfter (block before : PipelineBlock) : String :=
  let engine := block.spec.engine.getD .flow
  let ending := match before.spec with
    | .approval .. => "an approval is a step of its own, so the query this would belong to has " ++
        "already run — put every transform before the first approval"
    | _ => "it cannot be handed what a notebook produced — put every transform before the " ++
        "first notebook"
  s!"{block.id} is a {engine.label} block after the {before.spec.kind} {before.id}. A query " ++
    s!"step reads its rows from the query engine's catalog, so {ending}"

/-- What a walk down a chain has seen: the block that ends the query, and the view. -/
structure Seen where
  sealing : Option PipelineBlock
  view : Option String
  problems : List String

/-- One block further down the chain. -/
def Seen.next (seen : Seen) (block : PipelineBlock) : Seen :=
  let reached := match block.spec, seen.sealing with
    | .notebook .., _ | .approval .., _ => { seen with sealing := some block }
    | .transform .., some before =>
      { seen with problems := seen.problems ++ [flowAfter block before] }
    | _, _ => seen
  let told := match reached.view with
    | some view => { reached with problems := reached.problems ++
        [s!"{block.id} comes after the view {view}, which is the end of the chain"] }
    | none => reached
  match block.spec with
  | .view _ => { told with view := some block.id }
  | _ => told

/-- The first block written for each engine, in the order a refusal lists them. -/
def enginesOf (chain : List PipelineBlock) : List (QueryEngine × String) :=
  QueryEngine.all.filterMap fun engine =>
    (chain.find? fun block => block.spec.engine == some engine).map fun block =>
      (engine, block.id)

/-- What is wrong with the order these blocks are in. -/
def chainProblems (chain : List PipelineBlock) : List String :=
  let engines := enginesOf chain
  (match chain with
    | first :: _ =>
      if first.spec.isSource then []
      else [s!"the chain starts with {first.id} ({first.spec.kind}); it starts where the " ++
        "rows come from, which is a source block"]
    | [] => []) ++
  (chain.tail.filter (·.spec.isSource)).map (fun block =>
    s!"{block.id} is a second source; the rows come from one place and every later block " ++
      "reads what the one before it produced") ++
  (if 1 < engines.length then
    [s!"the transforms are written for {engines.length} engines — " ++
      " and ".intercalate (engines.map fun written => s!"{written.2} for {written.1.label}") ++
      "; they compile to one query, which runs on one engine"] else []) ++
  (chain.foldl Seen.next ⟨none, none, []⟩).problems

/-! ## The chain -/

/-- What has been read of a canvas: the blocks by their ids, and what each one feeds. -/
structure Canvas where
  problems : List String
  known : BTreeMap String PipelineBlock
  next : BTreeMap String String
  hasParent : BTreeMap String Unit

namespace Canvas

def new (problems : List String) : Canvas := ⟨problems, ∅, ∅, ∅⟩

def tell (canvas : Canvas) (problems : List String) : Canvas :=
  { canvas with problems := canvas.problems ++ problems }

def addBlock (addressing : Addressing) (canvas : Canvas) (block : PipelineBlock) : Canvas :=
  if !isBlockId block.id then
    canvas.tell [s!"'{block.id}' is not a block id: lower-case letters, digits and dashes, " ++
      s!"at most {maxIdLength}"]
  else
    let shared := if canvas.known.contains block.id then
      [s!"two blocks share the id '{block.id}'"] else []
    { canvas with
      known := canvas.known.insert block.id block
      problems := canvas.problems ++ shared ++ blockProblems addressing block }

def addEdge (canvas : Canvas) (edge : PipelineEdge) : Canvas :=
  if !canvas.known.contains edge.fromId || !canvas.known.contains edge.toId then
    canvas.tell [s!"the connection {edge.fromId} → {edge.toId} names a block that is not on " ++
      "the canvas"]
  else if edge.fromId == edge.toId then canvas.tell [s!"{edge.fromId} is connected to itself"]
  else
    let feeds := if canvas.next.contains edge.fromId then
      [s!"{edge.fromId} feeds more than one block; a curation is a chain, so each block has " ++
        "one next"] else []
    let fed := if canvas.hasParent.contains edge.toId then
      [s!"{edge.toId} is fed by more than one block; a curation is a chain, so each block has " ++
        "one input"] else []
    { canvas with
      next := canvas.next.insert edge.fromId edge.toId
      hasParent := canvas.hasParent.insert edge.toId ()
      problems := canvas.problems ++ feeds ++ fed }

/-- The blocks nothing feeds. -/
def heads (canvas : Canvas) : List PipelineBlock :=
  (BTreeMap.values canvas.known).filter fun block => !canvas.hasParent.contains block.id

/-- The blocks from one on, until the chain ends or comes round. -/
def walk (canvas : Canvas) : Nat → Option String → List PipelineBlock → List PipelineBlock
  | 0, _, chain => chain
  | _ + 1, none, chain => chain
  | fuel + 1, some id, chain =>
    if chain.any fun block => block.id == id then chain
    else match canvas.known[id]? with
      | none => chain
      | some block => walk canvas fuel canvas.next[id]? (chain ++ [block])

end Canvas

/-- The chain, head first, or every reason there is not one. -/
def orderOf (addressing : Addressing) (blocks : List PipelineBlock) (edges : List PipelineEdge) :
    Except (List String) (List PipelineBlock) :=
  if blocks.isEmpty then .error ["a pipeline needs at least one block"]
  else
    let many := if maxBlocks < blocks.length then
      [s!"a pipeline holds at most {maxBlocks} blocks; this one has {blocks.length}"] else []
    let canvas := edges.foldl Canvas.addEdge
      (blocks.foldl (Canvas.addBlock addressing) (Canvas.new many))
    let heads := canvas.heads
    let unheaded := if heads.length ≠ 1 && canvas.problems.isEmpty then
      [if heads.isEmpty then "the blocks form a loop, so nothing starts the chain"
       else s!"{heads.length} blocks start a chain of their own (" ++
        ", ".intercalate (heads.map (·.id)) ++ "); connect them into one"] else []
    let problems := canvas.problems ++ unheaded
    if !problems.isEmpty then .error problems
    else
      let chain := canvas.walk (canvas.known.size + 1) (heads.head?.map (·.id)) []
      if chain.length ≠ canvas.known.size then
        let stranded := (BTreeMap.values canvas.known).filter fun block =>
          !chain.any fun walked => walked.id == block.id
        .error [", ".intercalate (stranded.map (·.id)) ++ " is not connected to the chain"]
      else
        let problems := chainProblems chain
        if problems.isEmpty then .ok chain else .error problems

/-- `SavePipelineRequest::validate`. -/
def SavePipelineRequest.validate (addressing : Addressing) (request : SavePipelineRequest) :
    Except RegistryError Unit :=
  match validateName request.name "pipeline" with
  | .error refused => .error refused
  | .ok () =>
    if maxDescriptionBytes < byteLength request.description then
      .error (.tooLarge "the description" (byteLength request.description) maxDescriptionBytes)
    else match orderOf addressing request.blocks request.edges with
      | .error problems => .error (.rejected problems)
      | .ok _ => .ok ()

end Aiwatcher.Datasets
