import Aiwatcher.Evaluations.Model

/-!
# Aiwatcher.Evaluations.Comparison

Whether two results' numbers may be subtracted, and what one case did between them
(`comparison.rs`).
-/

namespace Aiwatcher.Evaluations

inductive Comparability where
  | comparable | incompatible | unverified
  deriving DecidableEq, Repr

/-- One metric on both sides. -/
structure EvidenceMetricDelta where
  name : String
  unit : Option String
  direction : Option MetricDirection
  current : Option Double
  baseline : Option Double
  delta : Option Double
  deriving DecidableEq, Repr

structure EvidenceComparison where
  current : DurableEvaluation
  baseline : DurableEvaluation
  comparability : Comparability
  reasons : List String
  sameVariant : Bool
  judged : Bool
  metrics : List EvidenceMetricDelta

def EvidenceState.says : EvidenceState → String
  | .complete => "complete"
  | .partly => "incomplete"
  | .missingArtifact => "missing its artifact"
  | .corruptArtifact => "corrupt"
  | .expired => "expired"
  | .deletedSource => "gone with its source"
  | .forbidden => "not readable"

/-- What moved between two pinned contexts. -/
def differences (current baseline : EvaluationContext) : List String :=
  [("dataset", decide (current.dataset ≠ baseline.dataset)),
    ("selected cases", decide (current.caseManifest ≠ baseline.caseManifest)),
    ("split", decide (current.split ≠ baseline.split)),
    ("suite", decide (current.suite ≠ baseline.suite)),
    ("scorer", decide (current.scorer ≠ baseline.scorer)),
    ("case schemas", decide (current.inputSchema ≠ baseline.inputSchema) ||
      decide (current.expectationsSchema ≠ baseline.expectationsSchema)),
    ("judge", decide (current.judge ≠ baseline.judge)),
    ("calibration of framework metrics",
      decide (current.externalCalibration ≠ baseline.externalCalibration)),
    ("metric definitions", decide (current.metrics ≠ baseline.metrics))].filterMap fun
    | (name, true) => some s!"Different {name}"
    | (_, false) => none

/-- Why two results are incompatible, but for what a side's own evidence says. -/
def apart (current baseline : DurableEvaluation) : List String :=
  (if current.receipt.evaluationId = baseline.receipt.evaluationId then
    ["An evaluation cannot be its own baseline"] else []) ++
  if current.receipt.contextId = baseline.receipt.contextId then []
  else "Different evaluation context" ::
    match current.manifest, baseline.manifest with
    | some left, some right => differences left.context right.context
    | _, _ => []

/-- A side that recorded a failed measurement. -/
def failedSide (label : String) (result : DurableEvaluation) : List String :=
  match result.state, result.status with
  | .partly, some .failed => [s!"{label} recorded a failed measurement"]
  | _, _ => []

/-- A side whose evidence cannot be held to a number. -/
def unprovenSide (label : String) (result : DurableEvaluation) : List String :=
  match result.state, result.status with
  | .complete, _ => []
  | .partly, some .failed => []
  | .partly, _ => [s!"{label} left cases unscored or failed"]
  | state, _ => [s!"{label}'s evidence is {state.says}"]

/-- A read policy over published evidence, not a promotion policy. -/
def comparability (current baseline : DurableEvaluation) : Comparability × List String :=
  let incompatible := apart current baseline ++ failedSide "This result" current ++
    failedSide "The baseline" baseline
  let unproven := unprovenSide "This result" current ++ unprovenSide "The baseline" baseline
  if incompatible ≠ [] then (.incompatible, incompatible ++ unproven)
  else if unproven ≠ [] then (.unverified, unproven)
  else (.comparable, [])

/-- In order, and each once. -/
def sortedNames (names : List String) : List String :=
  (names.foldl (fun held name => held.insert name ()) (∅ : BTreeMap String Unit)).keys

/-- The contexts of the sides that have one, this result's first. -/
def contextsOf (current baseline : DurableEvaluation) : List EvaluationContext :=
  [current.manifest, baseline.manifest].filterMap (Option.map (·.context))

/-- What a metric means, by the first context that declares it. -/
def definedIn (contexts : List EvaluationContext) (name : String) : Option MetricDefinition :=
  contexts.findSome? fun context => context.metrics.find? (·.name = name)

/-- Every metric either side reported or a context declares. -/
def metricNames (current baseline : DurableEvaluation) : List String :=
  sortedNames (current.metrics.keys ++ baseline.metrics.keys ++
    (contextsOf current baseline).flatMap fun context => context.metrics.map (·.name))

def metricDelta (arithmetic : Arithmetic) (comparable : Bool) (current baseline : DurableEvaluation)
    (name : String) : EvidenceMetricDelta where
  name := name
  unit := (definedIn (contextsOf current baseline) name).map (·.unit)
  direction := (definedIn (contextsOf current baseline) name).map (·.direction)
  current := current.metrics[name]?
  baseline := baseline.metrics[name]?
  delta := if comparable then
      (current.metrics[name]?).bind fun now =>
        (baseline.metrics[name]?).map fun «then» => arithmetic.sub now «then»
    else none

def compare (arithmetic : Arithmetic) (current baseline : DurableEvaluation) :
    EvidenceComparison where
  current := current
  baseline := baseline
  comparability := (comparability current baseline).1
  reasons := (comparability current baseline).2
  sameVariant := current.receipt.variantId == baseline.receipt.variantId
  judged := !current.reproducible || !baseline.reproducible
  metrics := (metricNames current baseline).map
    (metricDelta arithmetic ((comparability current baseline).1 = .comparable) current baseline)

/-! ## One case on both sides -/

inductive CaseChange where
  | regressed | improved | mixed | unchanged | unmeasured
  deriving DecidableEq, Repr

inductive CaseFilter where
  | worse | better | changed
  deriving DecidableEq, Repr

def CaseFilter.keeps : CaseFilter → CaseChange → Bool
  | .worse, change => change = .regressed ∨ change = .mixed
  | .better, change => change = .improved ∨ change = .mixed
  | .changed, change => change ≠ .unchanged

structure CaseOutcome where
  /-- Where the case sits on its side, as the case route's cursor. -/
  «at» : String
  error : Option String
  traceId : Option String
  spanId : Option String
  deriving DecidableEq, Repr

structure EvidenceCaseDelta where
  caseId : String
  change : CaseChange
  current : Option CaseOutcome
  baseline : Option CaseOutcome
  metrics : List EvidenceMetricDelta
  deriving DecidableEq, Repr

/-- A case of one side, and where it sits. -/
abbrev SideCase := CaseMeasurement × String

def SideCase.outcome (side : SideCase) : CaseOutcome where
  «at» := side.2
  error := side.1.error
  traceId := side.1.traceId
  spanId := side.1.spanId

def SideCase.metric? (side : Option SideCase) (name : String) : Option Double :=
  side.bind fun side => side.1.metrics[name]?

/-- Whether a metric moved for the better, and whether for the worse. -/
def EvidenceMetricDelta.moved (metric : EvidenceMetricDelta) : Bool × Bool :=
  match metric.delta.filter (fun delta => !Double.isEq delta 0), metric.direction with
  | some delta, some .higher => (Double.isLt 0 delta, Double.isLt delta 0)
  | some delta, some .lower => (Double.isLt delta 0, Double.isLt 0 delta)
  | _, _ => (false, false)

/-- A declared metric of a case, where at least one side reported it. -/
def caseMetric (arithmetic : Arithmetic) (current baseline : Option SideCase)
    (metric : MetricDefinition) : Option EvidenceMetricDelta :=
  let now := SideCase.metric? current metric.name
  let «then» := SideCase.metric? baseline metric.name
  if now.isSome || «then».isSome then
    some {
      name := metric.name
      unit := some metric.unit
      direction := some metric.direction
      current := now
      baseline := «then»
      delta := now.bind fun now => «then».map fun «then» => arithmetic.sub now «then» }
  else none

def changeOf (current baseline : Option SideCase) (metrics : List EvidenceMetricDelta) :
    CaseChange :=
  match current, baseline with
  | some now, some «then» =>
    match («then».1.error.isSome && now.1.error.isNone) || metrics.any (·.moved.1),
      (now.1.error.isSome && «then».1.error.isNone) || metrics.any (·.moved.2) with
    | true, true => .mixed
    | true, false => .improved
    | false, true => .regressed
    | false, false => .unchanged
  | _, _ => .unmeasured

def diffCase (arithmetic : Arithmetic) (declared : List MetricDefinition)
    (current baseline : Option SideCase) : EvidenceCaseDelta :=
  let metrics := declared.filterMap (caseMetric arithmetic current baseline)
  { caseId := ((current.or baseline).map (·.1.caseId)).getD ""
    change := changeOf current baseline metrics
    current := current.map SideCase.outcome
    baseline := baseline.map SideCase.outcome
    metrics := metrics }

/-! ## What the two answer -/

theorem mem_sortedNames {names : List String} {name : String} :
    name ∈ sortedNames names ↔ name ∈ names := by
  have hfold : ∀ (held : BTreeMap String Unit), name ∈
      (names.foldl (fun held name => held.insert name ()) held) ↔ name ∈ held ∨ name ∈ names := by
    induction names with
    | nil => simp
    | cons first rest ih =>
      intro held
      rw [List.foldl_cons, ih, Std.ExtTreeMap.mem_insert, List.mem_cons,
        Std.LawfulEqCmp.compare_eq_iff_eq]
      grind
  rw [sortedNames, Std.ExtTreeMap.mem_keys, hfold]
  simp

/-- Comparable are two complete results of other ids over one context. -/
theorem comparability_eq_comparable {current baseline : DurableEvaluation} :
    (comparability current baseline).1 = .comparable ↔
      apart current baseline = [] ∧ current.state = .complete ∧ baseline.state = .complete := by
  have hside : ∀ label (result : DurableEvaluation),
      failedSide label result = [] ∧ unprovenSide label result = [] ↔ result.state = .complete := by
    intro label result
    unfold failedSide unprovenSide
    split <;> split <;> simp_all
  have hthis := hside "This result" current
  have hother := hside "The baseline" baseline
  rw [← hthis, ← hother]
  clear hside hthis hother
  unfold comparability
  dsimp only
  split
  · simp_all
  · split <;> simp_all

theorem incompatible_of_apart {current baseline : DurableEvaluation}
    (h : apart current baseline ≠ []) : (comparability current baseline).1 = .incompatible := by
  simp [comparability, h]

/-- A metric that got worse, by the direction it is read in. -/
def EvidenceMetricDelta.Worse (metric : EvidenceMetricDelta) : Prop :=
  ∃ delta, metric.delta = some delta ∧
    ((metric.direction = some .higher ∧ Double.isLt delta 0 = true) ∨
      (metric.direction = some .lower ∧ Double.isLt 0 delta = true))

theorem EvidenceMetricDelta.Worse.moved {metric : EvidenceMetricDelta} (h : metric.Worse) :
    metric.moved.2 = true := by
  obtain ⟨delta, hdelta, ⟨hdirection, hlt⟩ | ⟨hdirection, hlt⟩⟩ := h
  · have hne : Double.isEq delta 0 = false := by
      by_contra heq
      simp [Double.not_isLt_of_isEq (by simpa using heq)] at hlt
    rw [EvidenceMetricDelta.moved, hdelta, hdirection, Option.filter_some, hne]
    exact hlt
  · have hne : Double.isEq delta 0 = false := by
      by_contra heq
      rw [Double.isEq_comm] at heq
      simp [Double.not_isLt_of_isEq (by simpa using heq)] at hlt
    rw [EvidenceMetricDelta.moved, hdelta, hdirection, Option.filter_some, hne]
    exact hlt

theorem change_diffCase_of_worse {arithmetic : Arithmetic} {declared : List MetricDefinition}
    {current baseline : Option SideCase} {metric : EvidenceMetricDelta}
    (hmem : metric ∈ (diffCase arithmetic declared current baseline).metrics)
    (hworse : metric.Worse) :
    (diffCase arithmetic declared current baseline).change = .regressed ∨
      (diffCase arithmetic declared current baseline).change = .mixed := by
  obtain ⟨definition, -, hdefinition⟩ := List.mem_filterMap.mp hmem
  have hmoved : (diffCase arithmetic declared current baseline).metrics.any (·.moved.2) = true :=
    List.any_eq_true.mpr ⟨metric, hmem, hworse.moved⟩
  obtain ⟨delta, hdelta, -⟩ := hworse
  cases current with
  | none =>
    simp only [caseMetric, SideCase.metric?] at hdefinition
    grind
  | some now =>
    cases baseline with
    | none =>
      simp only [caseMetric, SideCase.metric?] at hdefinition
      grind
    | some «then» =>
      simp only [diffCase, changeOf] at hmoved ⊢
      rw [hmoved, Bool.or_true]
      generalize (_ || _) = better
      cases better
      · exact .inl rfl
      · exact .inr rfl

end Aiwatcher.Evaluations
