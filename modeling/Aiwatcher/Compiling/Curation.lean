import Aiwatcher.Datasets.Chain
import Aiwatcher.Engine.Canonical

/-!
# Aiwatcher.Compiling.Curation

From an authored chain to a runnable plan (`compile.rs`).  A source and every transform
after it fold into one query step; every later block is a step of its own.

Two cursors thread the steps: `previous` is what the next edge comes from, and `rowsFrom`
the last step that produced rows.  An approval moves the first and not the second.
-/

namespace Aiwatcher.Compiling

open Engine Datasets

/-! ## Scripts -/

/-- A value as the query language writes it: a number as it is, anything else quoted. -/
def literal (value : String) : String :=
  let body := match value.toList with
    | '-' :: rest => String.ofList rest
    | _ => value
  let parts := split body '.'
  let numeric := !body.isEmpty && parts.length ≤ 2 && parts.all (fun part => !part.isEmpty) &&
    body.toList.all fun c => c.isDigit || c == '.'
  if numeric then value
  else "'" ++ String.ofList (value.toList.flatMap fun c =>
    if c = '\\' then ['\\', '\\'] else if c = '\'' then ['\\', '\''] else [c]) ++ "'"

/-- One `read()`, with the arguments the catalog declares for that dataset. -/
def readCall : BlockSpec → String
  | .source dataset arguments =>
    let given := arguments.toList.filter fun entry => !isBlank entry.2
    "->read(" ++ ", ".intercalate
      (dataset :: given.map fun entry => s!"{entry.1}: {literal entry.2}") ++ ")"
  | _ => "->read(default)"

/-- The steps of the transforms of a chain. -/
def transformSteps (chain : List PipelineBlock) : List String :=
  chain.filterMap fun block =>
    match block.spec with
    | .transform steps _ => some steps
    | _ => none

/-- The Flow PHP script a source and its transforms add up to. -/
def flowScript (source : BlockSpec) (chain : List PipelineBlock) : String :=
  let written := ((lines ("\n".intercalate (transformSteps chain))).map trim).filter
    fun line => !line.isEmpty
  "\n".intercalate (["data_frame()", "    " ++ readCall source] ++
    written.map (fun line => "    " ++ line) ++
    ["    ->write(to_output(truncate: false))", "    ->run();"])

/-- Python's keywords: they look like names, and none can be passed as one. -/
def pythonKeywords : List String :=
  ["False", "None", "True", "and", "as", "assert", "async", "await", "break", "class",
    "continue", "def", "del", "elif", "else", "except", "finally", "for", "from", "global",
    "if", "import", "in", "is", "lambda", "nonlocal", "not", "or", "pass", "raise", "return",
    "try", "while", "with", "yield"]

def isPythonName (name : String) : Bool :=
  name.toList.head?.any (fun first => first == '_' || first.isAlpha) &&
    name.toList.tail.all (fun c => c == '_' || c.isAlphanum) && !pythonKeywords.contains name

/-- A value as a Python string literal: its JSON form, which Python reads as one. -/
def pythonString (addressing : Addressing) (value : String) : String :=
  addressing.json (.string value)

/-- The Python a source and its transforms add up to, or the argument Python cannot pass. -/
def pythonScript (addressing : Addressing) (source : BlockSpec) (chain : List PipelineBlock) :
    Except String String :=
  let (dataset, arguments) := match source with
    | .source dataset arguments => (dataset, arguments.toList)
    | _ => ("default", [])
  let given := arguments.filter fun entry => !isBlank entry.2
  match given.find? fun entry => !isPythonName entry.1 with
  | some entry => .error entry.1
  | none =>
    let call := pythonString addressing dataset ::
      given.map fun entry => s!"{entry.1}={pythonString addressing entry.2}"
    let written := (transformSteps chain).filter fun steps => !isBlank steps
    .ok ("\n".intercalate (["df = read(" ++ ", ".intercalate call ++ ")"] ++
      written.map (fun steps => s!"df = (\n{trim steps}\n)") ++ ["df"]))

/-! ## Steps -/

/-- What a compilation may resolve that the definition left open. -/
structure CompileOptions where
  window : Option ResolvedWindow
  engine : QueryEngine
  queryTimeoutSeconds : Option UInt64

def queryTimeoutSeconds : UInt64 := 300
def notebookTimeoutSeconds : UInt64 := 900
def publishTimeoutSeconds : UInt64 := 120
def noAttemptTimer : UInt64 := 0

/-- The rows a step reads, bound to the step that produced them. -/
def readsRows (step : Option String) : List InputBinding :=
  step.toList.map fun step => .step step "rows"

/-- The one output of a step that produces rows. -/
def rowsOutput : List OutputDeclaration := [⟨"rows", .rows, none⟩]

/-- The step a source and its transforms compile to, on this deployment's engine. -/
def queryRuntime (addressing : Addressing) (source : PipelineBlock) (blocks : List PipelineBlock)
    (deployed : QueryEngine) (spec : String → QueryStepSpec) : Except String RuntimeBinding :=
  let python (bind : QueryStepSpec → RuntimeBinding) : Except String RuntimeBinding :=
    match pythonScript addressing source.spec blocks with
    | .ok script => .ok (bind (spec script))
    | .error name => .error (s!"{source.id} passes {name}=, which is not an argument name " ++
        "Python can pass to read()")
  let written := blocks.findSome? fun block =>
    block.spec.engine.map fun engine => (block.id, engine)
  match written with
  | some (block, engine) =>
    if engine ≠ deployed then
      .error (s!"{block} is written for {engine.asStr}, and this deployment runs " ++
        s!"{deployed.asStr} (AIWATCHER_QUERY_ENGINE). A step runs on the engine that is " ++
        s!"deployed: run this pipeline where {engine.asStr} is, or write its transforms for " ++
        s!"{deployed.asStr}")
    else match deployed with
      | .flow => .ok (.flowPhp (spec (flowScript source.spec blocks)))
      | .dataFusion => python .dataFusion
      | .duckDb => python .duckDb
  | none =>
    match deployed with
    | .flow => .ok (.flowPhp (spec (flowScript source.spec blocks)))
    | .dataFusion => python .dataFusion
    | .duckDb => python .duckDb

/-! ## The compiler -/

/-- A plan in the making. -/
structure Draft where
  problems : List String
  steps : List PlanStep
  edges : List PlanEdge
  previous : Option String
  rowsFrom : Option String

namespace Draft

def tell (draft : Draft) (problem : String) : Draft :=
  { draft with problems := draft.problems ++ [problem] }

/-- The edge to a step, and the step as where the next edge comes from. -/
def link (draft : Draft) (stepId : String) : Draft :=
  { draft with
    previous := some stepId
    edges := draft.edges ++ draft.previous.toList.map fun previous => ⟨previous, stepId⟩ }

def addStep (draft : Draft) (step : PlanStep) : Draft :=
  { draft with steps := draft.steps ++ [step] }

end Draft

def notebookStep (draft : Draft) (block : PipelineBlock) (notebook revision : String)
    (params : BTreeMap String Value) : PlanStep where
  id := block.id
  runtime := .marimo ⟨notebook, revision, params, some block.id⟩
  inputs := readsRows draft.rowsFrom
  outputs := rowsOutput
  retry := .default
  timeoutSeconds := notebookTimeoutSeconds
  cache := .byContent

def approvalStep (draft : Draft) (block : PipelineBlock) (prompt role : String)
    (choices : List String) (timeoutSeconds : Option UInt64) (onTimeout : OnTimeout) :
    PlanStep where
  id := block.id
  runtime := .humanInput ⟨prompt, role, choices, some block.id, timeoutSeconds, onTimeout⟩
  inputs := readsRows draft.rowsFrom
  outputs := []
  retry := .once
  timeoutSeconds := noAttemptTimer
  cache := .never

def publishStep (draft : Draft) (pipeline : CurationPipeline) (options : CompileOptions)
    (block : PipelineBlock) (dataset : String) : PlanStep where
  id := block.id
  runtime := .publishDataset ⟨dataset, s!"{pipeline.name}@{pipeline.revision}", some block.id⟩
  inputs := readsRows draft.rowsFrom
  outputs := []
  retry := .default
  timeoutSeconds := options.queryTimeoutSeconds.elim publishTimeoutSeconds fun query =>
    max query publishTimeoutSeconds
  cache := .never

/-- One block behind the query. -/
def compileBlock (pipeline : CurationPipeline) (options : CompileOptions) (draft : Draft)
    (block : PipelineBlock) : Draft :=
  match block.spec with
  | .source .. | .transform .. =>
    (draft.tell (s!"{block.id} is a Flow PHP block that no query reaches: everything before " ++
      "it that a Flow step could read has already been compiled into one")).link block.id
  | .notebook notebook revision params =>
    match revision.filter fun revision => !revision.isEmpty with
    | none =>
      draft.tell (s!"{block.id} names the notebook '{notebook}' without pinning a " ++
        "revision. A managed run pins the code it ran; save the pipeline with the notebook " ++
        "runtime reachable")
    | some revision =>
      { draft.addStep (notebookStep draft block notebook revision params) with
        rowsFrom := some block.id }.link block.id
  | .approval prompt role choices timeoutSeconds onTimeout =>
    (draft.addStep
      (approvalStep draft block prompt role choices timeoutSeconds onTimeout)).link block.id
  | .view dataset =>
    match dataset.filter fun name => !name.isEmpty with
    | none => draft.tell s!"{block.id} does not say which dataset it publishes to"
    | some dataset =>
      (draft.addStep (publishStep draft pipeline options block dataset)).link block.id

/-- Whether a block belongs to the one query of a chain. -/
def isQueryBlock (block : PipelineBlock) : Bool := block.spec.isSource || block.spec.isTransform

/-- The spec of a query over some blocks, up to its script. -/
def querySpec (options : CompileOptions) (queryBlocks : List PipelineBlock) (dataset : String)
    (arguments : BTreeMap String String) (script : String) : QueryStepSpec where
  script := script
  source := ⟨dataset, arguments, none, options.window, none⟩
  blocks := queryBlocks.map (·.id)

def queryStep (options : CompileOptions) (source : PipelineBlock) (runtime : RuntimeBinding) :
    PlanStep where
  id := source.id
  runtime := runtime
  inputs := []
  outputs := rowsOutput
  retry := .default
  timeoutSeconds := options.queryTimeoutSeconds.getD queryTimeoutSeconds
  cache := .byContent

/-- The source and its transforms, or what the chain starts with instead. -/
def compileQuery (addressing : Addressing) (options : CompileOptions)
    (queryBlocks : List PipelineBlock) : Except (List String) Draft :=
  let empty : Draft := ⟨[], [], [], none, none⟩
  match queryBlocks with
  | [] => .ok empty
  | source :: _ =>
    match source.spec with
    | .source dataset arguments =>
      match queryRuntime addressing source queryBlocks options.engine
          (querySpec options queryBlocks dataset arguments) with
      | .error problem => .ok (empty.tell problem)
      | .ok runtime =>
        .ok { empty.addStep (queryStep options source runtime) with
          previous := some source.id
          rowsFrom := some source.id }
    | _ => .error [s!"the chain starts with {source.id}, which is not a source"]

/-- Compile a saved curation pipeline into the plan that runs it, or say everything that is
wrong with it. -/
def compileCuration (addressing : Addressing) (pipeline : CurationPipeline)
    (options : CompileOptions) : Except (List String) ExecutionPlan :=
  match orderOf addressing pipeline.blocks pipeline.edges with
  | .error problems => .error problems
  | .ok chain =>
    let queryBlocks := chain.takeWhile isQueryBlock
    match compileQuery addressing options queryBlocks with
    | .error problems => .error problems
    | .ok query =>
      let draft := (chain.drop queryBlocks.length).foldl (compileBlock pipeline options) query
      let problems := draft.problems ++
        if draft.steps.isEmpty && draft.problems.isEmpty then
          ["this pipeline compiles to no steps"] else []
      if problems.isEmpty then
        .ok (.seal addressing .curationPipeline pipeline.name pipeline.revision draft.steps
          draft.edges)
      else .error problems

end Aiwatcher.Compiling
