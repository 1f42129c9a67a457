import Aiwatcher.Engine.Plan
import Aiwatcher.Strings
import Mathlib.Data.List.Sort

/-!
# Aiwatcher.Engine.Canonical

The JSON of a plan with every object's keys in order, and the address a plan is sealed
with (`ExecutionPlan::seal`).
-/

namespace Aiwatcher.Engine

/-! ## Values -/

def ResolvedWindow.toValue (window : ResolvedWindow) : Value :=
  .object [("from", ofI64 window.fromSecs), ("to", ofI64 window.toSecs)]

def FlowSourceRef.toValue (source : FlowSourceRef) : Value :=
  .object ([("arguments", ofTexts source.arguments)] ++
    optional "cursor" .string source.cursor ++
    [("dataset", .string source.dataset)] ++
    optional "resolved_revision" .string source.resolvedRevision ++
    optional "window" ResolvedWindow.toValue source.window)

/-- A query step, tagged by the engine that runs it. -/
def QueryStepSpec.toValue (tag : String) (spec : QueryStepSpec) : Value :=
  .object [("blocks", ofStrings spec.blocks), ("runtime", .string tag),
    ("script", .string spec.script), ("source", spec.source.toValue)]

def MarimoStepSpec.toValue (spec : MarimoStepSpec) : Value :=
  .object (optional "block" .string spec.block ++
    [("code_revision", .string spec.codeRevision), ("notebook", .string spec.notebook),
      ("params", ofMap spec.params), ("runtime", .string "marimo")])

def PublishDatasetSpec.toValue (spec : PublishDatasetSpec) : Value :=
  .object (optional "block" .string spec.block ++
    [("dataset", .string spec.dataset), ("produced_by", .string spec.producedBy),
      ("runtime", .string "publish_dataset")])

def PythonTaskSpec.toValue (spec : PythonTaskSpec) : Value :=
  .object [("params", ofMap spec.params), ("queue", .string spec.queue),
    ("runtime", .string "python_task"), ("task_ref", .string spec.taskRef)]

def PodRequest.toValue (pod : PodRequest) : Value :=
  .object (optional "cpu" .string pod.cpu ++ [("image", .string pod.image)] ++
    optional "memory" .string pod.memory ++ [("template", .string pod.template)])

def ContainerJobSpec.toValue (spec : ContainerJobSpec) : Value :=
  .object [("params", ofMap spec.params), ("pod", spec.pod.toValue),
    ("queue", .string spec.queue), ("runtime", .string "container_job"),
    ("task_ref", .string spec.taskRef)]

def ScoreEvaluationSpec.toValue (tag : String) (spec : ScoreEvaluationSpec) : Value :=
  .object [("declaration", .string spec.declaration), ("runtime", .string tag)]

def HumanInputSpec.toValue (spec : HumanInputSpec) : Value :=
  .object (optional "block" .string spec.block ++
    optional "choices" ofStrings (if spec.choices.isEmpty then none else some spec.choices) ++
    [("on_timeout", onTimeoutValue spec.onTimeout), ("prompt", .string spec.prompt),
      ("role", .string spec.role), ("runtime", .string "human_input")] ++
    optional "timeout_seconds" ofU64 spec.timeoutSeconds)

def RuntimeBinding.toValue : RuntimeBinding → Value
  | .flowPhp spec => spec.toValue "flow_php"
  | .dataFusion spec => spec.toValue "datafusion"
  | .duckDb spec => spec.toValue "duckdb"
  | .marimo spec => spec.toValue
  | .publishDataset spec => spec.toValue
  | .pythonTask spec => spec.toValue
  | .containerJob spec => spec.toValue
  | .scoreEvaluation spec => spec.toValue "score_evaluation"
  | .judgeEvaluation spec => spec.toValue "judge_evaluation"
  | .externalEvaluation spec => spec.toValue "external_evaluation"
  | .evaluationCases spec => spec.toValue "evaluation_cases"
  | .evaluationTraces spec => spec.toValue "evaluation_traces"
  | .humanInput spec => spec.toValue

def InputBinding.toValue : InputBinding → Value
  | .step source output =>
    .object [("from", .string "step"), ("output", .string output), ("step", .string source)]
  | .parameter name => .object [("from", .string "parameter"), ("name", .string name)]

def artifactKindWord : ArtifactKind → String
  | .rows => "rows"
  | .code => "code"
  | .preview => "preview"
  | .log => "log"
  | .model => "model"
  | .report => "report"
  | .blob => "blob"

def OutputDeclaration.toValue (output : OutputDeclaration) : Value :=
  .object ([("kind", .string (artifactKindWord output.kind)), ("name", .string output.name)] ++
    optional "schema_ref" .string output.schemaRef)

def RetryPolicy.toValue (policy : RetryPolicy) : Value :=
  .object [("delays_seconds", .array (policy.delaysSeconds.map ofU64)),
    ("delays_seconds_unavailable", .array (policy.delaysSecondsUnavailable.map ofU64)),
    ("max_attempts", ofU32 policy.maxAttempts),
    ("max_unavailable_attempts", ofU32 policy.maxUnavailableAttempts)]

def CachePolicy.word : CachePolicy → String
  | .never => "never"
  | .byContent => "by_content"

def DefinitionKind.asStr : DefinitionKind → String
  | .curationPipeline => "curation_pipeline"
  | .workflow => "workflow"
  | .evaluation => "evaluation"

def PlanStep.toValue (step : PlanStep) : Value :=
  .object [("cache", .string step.cache.word), ("id", .string step.id),
    ("inputs", .array (step.inputs.map InputBinding.toValue)),
    ("outputs", .array (step.outputs.map OutputDeclaration.toValue)),
    ("retry", step.retry.toValue), ("runtime", step.runtime.toValue),
    ("timeout_seconds", ofU64 step.timeoutSeconds)]

def PlanEdge.toValue (edge : PlanEdge) : Value :=
  .object [("from", .string edge.fromId), ("to", .string edge.toId)]

def ExecutionPlan.toValue (plan : ExecutionPlan) : Value :=
  .object [("definition_kind", .string plan.definitionKind.asStr),
    ("definition_name", .string plan.definitionName),
    ("edges", .array (plan.edges.map PlanEdge.toValue)),
    ("plan_id", .string plan.planId),
    ("revision", .string plan.revision),
    ("steps", .array (plan.steps.map PlanStep.toValue))]

/-! ## Sealing -/

/-- The order of edges: by where they come from, then by where they lead. -/
def PlanEdge.le (a b : PlanEdge) : Bool :=
  a.fromId < b.fromId || (a.fromId == b.fromId && a.toId ≤ b.toId)

/-- `Vec::dedup`: of equal neighbours the first stays. -/
def dropRepeats {α : Type} [DecidableEq α] : List α → List α
  | [] => []
  | [a] => [a]
  | a :: b :: rest => if a = b then dropRepeats (b :: rest) else a :: dropRepeats (b :: rest)

/-- Seal a compiled graph by giving it its content address. -/
def ExecutionPlan.seal (addressing : Addressing) (kind : DefinitionKind) (name revision : String)
    (steps : List PlanStep) (edges : List PlanEdge) : ExecutionPlan :=
  let plan : ExecutionPlan := {
    planId := ""
    definitionKind := kind
    definitionName := name
    revision := revision
    steps := steps
    edges := dropRepeats (edges.insertionSort fun a b => a.le b) }
  { plan with planId := addressing.digest (addressing.json plan.toValue) }

theorem mem_dropRepeats {α : Type} [DecidableEq α] {a : α} {as : List α} :
    a ∈ dropRepeats as ↔ a ∈ as := by
  induction as using dropRepeats.induct <;> simp_all [dropRepeats]

section Sealed

variable {addressing : Addressing} {kind : DefinitionKind} {name revision : String}
  {steps : List PlanStep} {edges : List PlanEdge}

@[simp] theorem steps_seal : (ExecutionPlan.seal addressing kind name revision steps edges).steps = steps := rfl

theorem mem_edges_seal {edge : PlanEdge} :
    edge ∈ (ExecutionPlan.seal addressing kind name revision steps edges).edges ↔ edge ∈ edges := by
  simp [ExecutionPlan.seal, mem_dropRepeats, List.mem_insertionSort]

theorem revision_of_planId (h : addressing.Faithful) {name' revision' : String}
    {steps' : List PlanStep} {edges' : List PlanEdge}
    (hid : (ExecutionPlan.seal addressing kind name revision steps edges).planId =
      (ExecutionPlan.seal addressing kind name' revision' steps' edges').planId) :
    revision = revision' := by
  have hvalue := h.json (h.digest hid)
  simp [ExecutionPlan.toValue] at hvalue
  exact hvalue.2.2.1

end Sealed

end Aiwatcher.Engine
