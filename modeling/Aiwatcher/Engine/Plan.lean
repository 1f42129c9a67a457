import Aiwatcher.Core
import Aiwatcher.Library.Dag
import Aiwatcher.Library.Worklist

/-!
# Aiwatcher.Engine.Plan

What an execution runs (`plan.rs`): the runtime bindings and their specs, the
retry policy, and the graph with the questions the decider asks of it.
-/

namespace Aiwatcher.Engine

open List

/-! ## Runtimes -/

/-- The word a reactor routes on, without loading the plan. -/
inductive RuntimeKind where
  | flowPhp | dataFusion | duckDb | marimo | publishDataset | pythonTask | containerJob
  | scoreEvaluation | judgeEvaluation | externalEvaluation | evaluationCases
  | evaluationTraces | humanInput
  deriving DecidableEq, Repr

/-- The kinds only a claim naming the attempt's key may take. -/
def RuntimeKind.claimedByKey : List RuntimeKind := [.containerJob]

def RuntimeKind.isClaimedByKey (kind : RuntimeKind) : Bool :=
  RuntimeKind.claimedByKey.contains kind

/-- Exact bounds, in seconds since the epoch. -/
structure ResolvedWindow where
  fromSecs : Int64
  toSecs : Int64

/-- Where a query's rows come from. -/
structure FlowSourceRef where
  dataset : String
  arguments : BTreeMap String String
  resolvedRevision : Option String
  window : Option ResolvedWindow
  cursor : Option String

/-- One query step, whichever engine runs it. -/
structure QueryStepSpec where
  script : String
  source : FlowSourceRef
  blocks : List String

structure MarimoStepSpec where
  notebook : String
  codeRevision : String
  params : BTreeMap String Value
  block : Option String

structure ScoreEvaluationSpec where
  declaration : String

structure PublishDatasetSpec where
  dataset : String
  producedBy : String
  block : Option String

structure PythonTaskSpec where
  taskRef : String
  queue : String
  params : BTreeMap String Value

structure PodRequest where
  template : String
  image : String
  cpu : Option String
  memory : Option String

structure ContainerJobSpec where
  taskRef : String
  queue : String
  params : BTreeMap String Value
  pod : PodRequest

/-- A question and who may answer it. -/
structure HumanInputSpec where
  prompt : String
  role : String
  choices : List String
  block : Option String
  timeoutSeconds : Option UInt64
  onTimeout : OnTimeout

/-- Where a step runs, and everything that runtime needs. -/
inductive RuntimeBinding where
  | flowPhp (spec : QueryStepSpec)
  | dataFusion (spec : QueryStepSpec)
  | duckDb (spec : QueryStepSpec)
  | marimo (spec : MarimoStepSpec)
  | publishDataset (spec : PublishDatasetSpec)
  | pythonTask (spec : PythonTaskSpec)
  | containerJob (spec : ContainerJobSpec)
  | scoreEvaluation (spec : ScoreEvaluationSpec)
  | judgeEvaluation (spec : ScoreEvaluationSpec)
  | externalEvaluation (spec : ScoreEvaluationSpec)
  | evaluationCases (spec : ScoreEvaluationSpec)
  | evaluationTraces (spec : ScoreEvaluationSpec)
  | humanInput (spec : HumanInputSpec)

def RuntimeBinding.kind : RuntimeBinding → RuntimeKind
  | .flowPhp _ => .flowPhp
  | .dataFusion _ => .dataFusion
  | .duckDb _ => .duckDb
  | .marimo _ => .marimo
  | .publishDataset _ => .publishDataset
  | .scoreEvaluation _ => .scoreEvaluation
  | .judgeEvaluation _ => .judgeEvaluation
  | .externalEvaluation _ => .externalEvaluation
  | .evaluationCases _ => .evaluationCases
  | .evaluationTraces _ => .evaluationTraces
  | .pythonTask _ => .pythonTask
  | .containerJob _ => .containerJob
  | .humanInput _ => .humanInput

/-- The question a binding puts in front of somebody instead of running anything. -/
def RuntimeBinding.question : RuntimeBinding → Option HumanInputSpec
  | .humanInput spec => some spec
  | _ => none

/-- The authored canvas blocks a binding came from, in order; `none` is a kind that is not
drawn on a canvas. -/
def RuntimeBinding.blocks : RuntimeBinding → Option (List String)
  | .flowPhp spec | .dataFusion spec | .duckDb spec => some spec.blocks
  | .marimo spec => spec.block.map fun block => [block]
  | .publishDataset spec => spec.block.map fun block => [block]
  | .humanInput spec => spec.block.map fun block => [block]
  | .pythonTask _ | .containerJob _ | .scoreEvaluation _ | .judgeEvaluation _
  | .externalEvaluation _ | .evaluationCases _ | .evaluationTraces _ => none

/-! ## Steps -/

/-- Where one of a step's inputs comes from. -/
inductive InputBinding where
  | step (step output : String)
  | parameter (name : String)

structure OutputDeclaration where
  name : String
  kind : ArtifactKind
  schemaRef : Option String

/-- How many times, and how far apart: one budget for attempts that produced an
answer and one for attempts nobody answered. -/
structure RetryPolicy where
  maxAttempts : UInt32
  maxUnavailableAttempts : UInt32
  delaysSeconds : List UInt64
  delaysSecondsUnavailable : List UInt64

/-- Nothing is retried automatically. -/
def RetryPolicy.once : RetryPolicy := ⟨1, 1, [], []⟩

/-- Three attempts that answered and ten nobody answered. -/
def RetryPolicy.default : RetryPolicy := ⟨3, 10, [1, 5, 30], [5, 15, 30, 60]⟩

/-- How many whole seconds to wait before `attempt`, which is 1-based: attempt 1
waits for nothing and the last delay repeats. -/
def RetryPolicy.delayBefore (policy : RetryPolicy) (attempt : UInt32) (unavailable : Bool) :
    UInt64 :=
  let delays := if unavailable then policy.delaysSecondsUnavailable else policy.delaysSeconds
  if attempt.toNat < 2 then 0
  else (delays[attempt.toNat - 2]?.or delays.getLast?).getD 0

inductive CachePolicy where
  | never
  | byContent
  deriving DecidableEq, Repr

structure PlanStep where
  id : String
  runtime : RuntimeBinding
  inputs : List InputBinding
  outputs : List OutputDeclaration
  retry : RetryPolicy
  timeoutSeconds : UInt64
  cache : CachePolicy

/-- Whether a step is what an authored block became; one of a kind that is not drawn is
addressed by its own id. -/
def PlanStep.covers (step : PlanStep) (block : String) : Bool :=
  match step.runtime.blocks with
  | some blocks => blocks.any (· == block)
  | none => step.id == block

structure PlanEdge where
  fromId : String
  toId : String
  deriving DecidableEq, Repr

inductive DefinitionKind where
  | curationPipeline | workflow | evaluation
  deriving DecidableEq, Repr

/-- The runtime-neutral graph an execution runs. -/
structure ExecutionPlan where
  planId : String
  definitionKind : DefinitionKind
  definitionName : String
  revision : String
  steps : List PlanStep
  edges : List PlanEdge

/-- One plan step, and the blocks somebody drew that became it. -/
structure StepBlocks where
  stepId : String
  runtime : RuntimeKind
  blocks : List String
  deriving DecidableEq, Repr

namespace ExecutionPlan

def step (plan : ExecutionPlan) (id : String) : Option PlanStep :=
  plan.steps.find? (·.id == id)

/-- The steps `id` must wait for. -/
def parentsOf (plan : ExecutionPlan) (id : String) : List String :=
  (plan.edges.filter (·.toId == id)).map (·.fromId)

/-- The steps waiting on `id`. -/
def childrenOf (plan : ExecutionPlan) (id : String) : List String :=
  (plan.edges.filter (·.fromId == id)).map (·.toId)

/-- The ids of the plan's steps, in plan order. -/
def ids (plan : ExecutionPlan) : List String := plan.steps.map (·.id)

/-- The step an authored block compiled into. -/
def stepForBlock (plan : ExecutionPlan) (block : String) : Option PlanStep :=
  plan.steps.find? fun step => step.covers block

/-- Which authored blocks each step covers, in the plan's own order. -/
def blocksByStep (plan : ExecutionPlan) : List StepBlocks :=
  plan.steps.map fun step => ⟨step.id, step.runtime.kind, step.runtime.blocks.getD []⟩

/-- Whether no edge closes a cycle. -/
def isAcyclic (plan : ExecutionPlan) : Bool :=
  Library.Peel.peels plan.parentsOf plan.ids.length plan.ids

/-- Whether `id` is a question put in front of somebody, dispatched nowhere. -/
def asksSomebody (plan : ExecutionPlan) (id : String) : Bool :=
  match (plan.step id).map PlanStep.runtime with
  | some (.humanInput _) => true
  | _ => false

variable {plan : ExecutionPlan}

theorem asksSomebody_of_step {id : String} {p : PlanStep} (h : plan.step id = some p) :
    plan.asksSomebody id = p.runtime.question.isSome := by
  unfold asksSomebody
  rw [h]
  cases hr : p.runtime <;> simp [hr, RuntimeBinding.question]

theorem mem_parentsOf {id parent : String} :
    parent ∈ plan.parentsOf id ↔ PlanEdge.mk parent id ∈ plan.edges := by
  simp only [parentsOf, mem_map, mem_filter, beq_iff_eq]
  constructor
  · rintro ⟨⟨f, t⟩, ⟨hmem, rfl⟩, rfl⟩
    exact hmem
  · exact fun h => ⟨_, ⟨h, rfl⟩, rfl⟩

theorem mem_ids_iff_step {id : String} : id ∈ plan.ids ↔ ∃ step, plan.step id = some step := by
  rw [← Option.isSome_iff_exists, step, find?_isSome, ids, mem_map]
  simp

/-- An accepted graph has no dead end: every nonempty part of the steps has a step
none of whose parents is in that part. -/
theorem founded_of_isAcyclic (h : plan.isAcyclic = true) :
    Library.Peel.Founded plan.parentsOf plan.ids :=
  Library.Peel.founded_of_peels h

/-- One step waits for another: both are the plan's, and an edge joins them. -/
def Awaits (plan : ExecutionPlan) (p a : String) : Prop :=
  p ∈ plan.ids ∧ a ∈ plan.ids ∧ PlanEdge.mk p a ∈ plan.edges

/-- **The test of a stored plan.**  Its rounds come to an end, and it passes exactly where no
step waits, however indirectly, for itself.  An edge at an id no step has joins no steps. -/
theorem isAcyclic_iff_acyclic (plan : ExecutionPlan) :
    (∃ fuel, Library.Peel.rounds plan.parentsOf fuel plan.ids = some plan.isAcyclic) ∧
      (plan.isAcyclic = true ↔ Library.Acyclic plan.Awaits) := by
  have hawaits : plan.Awaits = Library.Peel.Within plan.parentsOf plan.ids := by
    funext p a
    rw [Awaits, Library.Peel.Within, mem_parentsOf]
  refine ⟨⟨_, Library.Peel.rounds_eq le_rfl⟩, ?_⟩
  rw [hawaits]
  constructor
  · intro h
    exact Library.Peel.acyclic_of_founded (founded_of_isAcyclic h)
  · intro h
    exact Library.Peel.peels_of_founded le_rfl (Library.Peel.founded_of_acyclic h)

/-! ## Descendants -/

/-- The children found below `id`, each with the step it was found from, in the
order a depth-first walk of the edges finds them. -/
def descent (plan : ExecutionPlan) (id : String) : List (String × String) :=
  Library.Worklist.trace plan.childrenOf (plan.edges.length + 1) [id] []

/-- The steps below `id`, each once. -/
def downstreamOf (plan : ExecutionPlan) (id : String) : List String :=
  (plan.descent id).map Prod.snd

theorem nodup_downstreamOf (plan : ExecutionPlan) (id : String) : (plan.downstreamOf id).Nodup :=
  (Library.Worklist.trace_nodup _ _ _).1

end ExecutionPlan

end Aiwatcher.Engine
