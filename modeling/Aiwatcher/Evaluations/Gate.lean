import Aiwatcher.Evaluations.Comparison

/-!
# Aiwatcher.Evaluations.Gate

Whether a measured result may ship against a baseline (`gate.rs`).

A metric is held to the difference of the two sides, and where the two are not comparable there is
none: the missing difference counts as no change, and so a baseline whose evidence cannot be read,
or is partial, stops nothing.
-/

namespace Aiwatcher.Evaluations

open GenerationTrace

/-- What a gate holds a result to. -/
structure GatePolicy where
  tolerance : BTreeMap String Double
  ignore : List String
  criticalCases : List String
  requireTraces : Bool
  requireWitness : Bool
  requireWitnessedAnswer : Bool
  askedElsewhereUnpinnedDenies : Bool
  askedSinceSeconds : Option Nat

inductive GateVerdict where
  | pass | regression | incomplete | error
  deriving DecidableEq, Repr

structure GateSubject where
  evaluationId : String
  version : String
  state : EvidenceState
  suite : Option VersionReference
  code : Option ArtifactRef
  deriving DecidableEq, Repr

structure GateMetric where
  delta : EvidenceMetricDelta
  tolerance : Option Double
  held : Bool
  regressed : Bool
  deriving DecidableEq, Repr

structure GateCase where
  caseId : String
  change : Option CaseChange
  held : Bool
  reason : Option String
  deriving DecidableEq, Repr

structure GateDecision where
  verdict : GateVerdict
  reasons : List String
  comparability : Comparability
  candidate : GateSubject
  baseline : GateSubject
  metrics : List GateMetric
  critical : List GateCase
  deriving DecidableEq, Repr

def DurableEvaluation.subject (evaluation : DurableEvaluation) : GateSubject where
  evaluationId := evaluation.receipt.evaluationId
  version := evaluation.receipt.version
  state := evaluation.state
  suite := evaluation.manifest.map (·.context.suite)
  code := evaluation.manifest.map (·.code)

/-- How `{:?}` writes a state. -/
def EvidenceState.debug : EvidenceState → String
  | .complete => "Complete"
  | .partly => "Partial"
  | .missingArtifact => "MissingArtifact"
  | .corruptArtifact => "CorruptArtifact"
  | .expired => "Expired"
  | .deletedSource => "DeletedSource"
  | .forbidden => "Forbidden"

/-! ## The candidate's own evidence -/

def isError (comparison : EvidenceComparison) : Bool :=
  !(comparison.current.state = .complete ∨ comparison.current.state = .partly) ||
    comparison.current.status = some .failed || comparison.comparability = .incompatible

def errorReasons (comparison : EvidenceComparison) : List String :=
  if isError comparison then
    ["the candidate cannot be held to this baseline: it is " ++
      comparison.current.state.debug ++
      String.join (comparison.reasons.map fun reason => s!"; {reason}")]
  else []

def isIncomplete (candidate : DurableEvaluation) : Bool :=
  candidate.counts.any fun counts => 0 < counts.failed || 0 < counts.unscored

def incompleteReasons (candidate : DurableEvaluation) : List String :=
  match candidate.counts with
  | some counts =>
    if isIncomplete candidate then
      [s!"the candidate's measurement is incomplete: {counts.failed} of {counts.selected} " ++
        s!"cases failed and {counts.unscored} went unscored, and a measurement that could not " ++
        "say never passes"]
    else []
  | none => []

/-- Why the traces fall short of what the policy requires of them; empty where they do not. -/
def tracedShort (policy : GatePolicy) (candidate : DurableEvaluation) : Bool × List String :=
  if policy.requireTraces then
    match candidate.traces with
    | none => (true, ["the policy requires every answer seen on the variant's pins, and the " ++
        "candidate's answers were not generated here, so no trace was read"])
    | some traces =>
      if traces.complete then (false, [])
      else (true, traces.shortfall.map fun missing =>
        s!"the policy requires every answer traced: {missing}")
  else (false, [])

def witnessedShort (policy : GatePolicy) (candidate : DurableEvaluation) : Bool × List String :=
  if policy.requireWitness then
    match candidate.traces with
    | none => (true, ["the policy requires a serving host's word for every answer's model, and " ++
        "the candidate's answers were not generated here, so no trace was read"])
    | some traces =>
      if traces.witnessed then (false, [])
      else (true, traces.unwitnessed.map fun missing =>
        s!"the policy requires every answer witnessed: {missing}")
  else (false, [])

def exchangedShort (policy : GatePolicy) (candidate : DurableEvaluation) : Bool × List String :=
  if policy.requireWitnessedAnswer then
    match candidate.traces with
    | none => (true, ["the policy requires every answer to be a reply a witness relayed, and " ++
        "the candidate's answers were not generated here, so no trace was read"])
    | some traces =>
      if traces.answersWitnessed then
        match policy.askedSinceSeconds.bind traces.askedSinceShortOf with
        | some short =>
          (true, ["the policy requires every answer witnessed as the reply, looking for its " ++
            s!"case asked elsewhere from {policy.askedSinceSeconds.getD 0} s before the " ++
            s!"run: {short}"])
        | none =>
          if policy.askedElsewhereUnpinnedDenies ∧ 0 < traces.askedElsewhereUnpinned then
            (true, ["the policy requires every answer witnessed as the reply, and denies " ++
              "one whose case was asked on another prompt or model in another run: " ++
              s!"{traces.askedElsewhereUnpinned} of {traces.answers} answers' cases were"])
          else (false, [])
      else (true, traces.unwitnessedAnswers.map fun missing =>
        s!"the policy requires every answer witnessed as the reply: {missing}")
  else (false, [])

/-! ## The metrics and the critical cases -/

/-- How much worse than the baseline a metric is; a missing difference is none. -/
def worseBy (delta : Option Double) (direction : Option MetricDirection) : Double :=
  match delta, direction with
  | some change, some .higher => change.neg
  | some change, some .lower => change
  | _, _ => 0

def gateMetric (arithmetic : Arithmetic) (policy : GatePolicy) (delta : EvidenceMetricDelta) :
    GateMetric where
  delta := delta
  tolerance := policy.tolerance[delta.name]?
  held := !policy.ignore.contains delta.name
  regressed := !policy.ignore.contains delta.name &&
    Double.isLt (arithmetic.add ((policy.tolerance[delta.name]?).getD 0) Double.noise)
      (worseBy delta.delta delta.direction)

def metricReasons (arithmetic : Arithmetic) (metric : GateMetric) : List String :=
  if metric.regressed then
    [s!"{metric.delta.name} is worse than the baseline by " ++
      arithmetic.display (worseBy metric.delta.delta metric.delta.direction) ++
      match metric.tolerance with
      | none => ", and may not get worse"
      | some allowed => ", past the " ++ arithmetic.display allowed ++ " allowed"]
  else []

/-- The rows by their case; of two rows of one case, the later. -/
def rowsOf (rows : List EvidenceCaseDelta) : BTreeMap String EvidenceCaseDelta :=
  rows.foldl (fun held row => held.insert row.caseId row) ∅

def criticalReason (row : Option EvidenceCaseDelta) : Option String :=
  match row with
  | none => some "neither result holds this case"
  | some row =>
    match row.current with
    | none => some "the candidate never measured it"
    | some outcome =>
      match outcome.error with
      | some error => some s!"the candidate failed it: {error}"
      | none =>
        if row.change = .regressed ∨ row.change = .mixed then
          some "it is worse than the baseline on a metric"
        else none

def gateCase (rows : BTreeMap String EvidenceCaseDelta) (caseId : String) : GateCase where
  caseId := caseId
  change := (rows[caseId]?).map (·.change)
  held := (criticalReason rows[caseId]?).isNone
  reason := criticalReason rows[caseId]?

def caseReasons (case : GateCase) : List String :=
  case.reason.toList.map fun reason => s!"critical case {case.caseId}: {reason}"

/-- The verdict on a comparison, the policy and the rows of the critical cases. -/
def decide (arithmetic : Arithmetic) (comparison : EvidenceComparison) (policy : GatePolicy)
    (criticalRows : List EvidenceCaseDelta) : GateDecision :=
  let candidate := comparison.current
  let untraced := tracedShort policy candidate
  let unwitnessed := witnessedShort policy candidate
  let unexchanged := exchangedShort policy candidate
  let incomplete := isIncomplete candidate || untraced.1 || unwitnessed.1 || unexchanged.1
  let metrics := comparison.metrics.map (gateMetric arithmetic policy)
  let critical := policy.criticalCases.map (gateCase (rowsOf criticalRows))
  let regressed := metrics.any (·.regressed) || critical.any (·.reason.isSome)
  { verdict :=
      if isError comparison then .error
      else if regressed then .regression
      else if incomplete then .incomplete
      else .pass
    reasons := errorReasons comparison ++ incompleteReasons candidate ++ untraced.2 ++
      unwitnessed.2 ++ unexchanged.2 ++ metrics.flatMap (metricReasons arithmetic) ++
      critical.flatMap caseReasons
    comparability := comparison.comparability
    candidate := candidate.subject
    baseline := comparison.baseline.subject
    metrics := metrics
    critical := critical }

/-! ## What a pass is taken to say -/

/-- What the policy asks of the traces and the witnesses. -/
structure Shown (policy : GatePolicy) (traces : Option GenerationTrace) : Prop where
  traced : policy.requireTraces = true → ∃ trace, traces = some trace ∧
    trace.seen = trace.answers ∧ (∀ n, trace.onPrompt = some n → n = trace.answers) ∧
    (∀ n, trace.onModel = some n → n = trace.answers) ∧
    ∀ n, trace.onWorkflow = some n → n = trace.answers
  witnessed : policy.requireWitness = true → ∃ trace, traces = some trace ∧
    (∀ n, trace.witnessedModel = some n → n = trace.answers) ∧
    ∀ n, trace.witnessedPrompt = some n → n = trace.answers
  exchanged : policy.requireWitnessedAnswer = true → ∃ trace, traces = some trace ∧
    (∀ n, trace.witnessedAnswer = some n → n = trace.answers) ∧
    (∀ n, trace.witnessedInput = some n → n = trace.answers) ∧
    (∀ n, trace.witnessedExchange = some n → n = trace.answers) ∧
    (∀ wanted, policy.askedSinceSeconds = some wanted →
      ∃ read, trace.askedSinceSeconds = some read ∧ wanted ≤ read) ∧
    (policy.askedElsewhereUnpinnedDenies = true → trace.askedElsewhereUnpinned = 0)

/-- The candidate measured a case, without an error, and no metric of it got worse. -/
def CaseHolds (rows : List EvidenceCaseDelta) (caseId : String) : Prop :=
  ∃ row ∈ rows, row.caseId = caseId ∧
    (∃ outcome, row.current = some outcome ∧ outcome.error = none) ∧
    ∀ metric ∈ row.metrics, ¬ metric.Worse

/-- A metric the gate holds: not ignored, reported by a side, and one way of it is better. -/
structure Held (policy : GatePolicy) (current baseline : DurableEvaluation) (name : String)
    (better : MetricDirection) : Prop where
  counted : name ∉ policy.ignore
  reported : name ∈ current.metrics ∨ name ∈ baseline.metrics
  directed : (definedIn (contextsOf current baseline) name).map (·.direction) = some better
  way : better ≠ .none

/-- How much worse than its tolerance a metric may be before it is worse. -/
def GatePolicy.allowed (policy : GatePolicy) (name : String) : Double :=
  (policy.tolerance[name]?).getD 0

/-- The two results were compared, and the candidate stood. -/
structure Compared (arithmetic : Arithmetic) (policy : GatePolicy)
    (current baseline : DurableEvaluation) (rows : List EvidenceCaseDelta) : Prop where
  comparable : (comparability current baseline).1 = .comparable
  subtracted : ∀ name better, Held policy current baseline name better →
    ∃ now «then», current.metrics[name]? = some now ∧ baseline.metrics[name]? = some «then» ∧
      Double.isLt (policy.allowed name)
        (worseBy (some (arithmetic.sub now «then»)) (some better)) = false
  critical : ∀ caseId ∈ policy.criticalCases, CaseHolds rows caseId
  measured : ∀ counts, current.counts = some counts → counts.failed = 0 ∧ counts.unscored = 0
  shown : Shown policy current.traces

/-- A case of two results that was compared under some declared metrics. -/
structure DiffedCase where
  declared : List MetricDefinition
  current : Option SideCase
  baseline : Option SideCase

def DiffedCase.row (arithmetic : Arithmetic) (case : DiffedCase) : EvidenceCaseDelta :=
  diffCase arithmetic case.declared case.current case.baseline

/-! ## When a pass says it -/

/-- Both sides are complete and report every metric that is held, and none is worse by an amount
between its tolerance and the noise above it. -/
structure Subtractable (arithmetic : Arithmetic) (policy : GatePolicy)
    (current baseline : DurableEvaluation) : Prop where
  complete : current.state = .complete ∧ baseline.state = .complete
  reported : ∀ name better, Held policy current baseline name better →
    ∃ now «then», current.metrics[name]? = some now ∧ baseline.metrics[name]? = some «then» ∧
      ¬ (Double.isLt (policy.allowed name)
            (worseBy (some (arithmetic.sub now «then»)) (some better)) = true ∧
          Double.isLt (arithmetic.add (policy.allowed name) Double.noise)
            (worseBy (some (arithmetic.sub now «then»)) (some better)) = false)

/-- Something else stands against the candidate. -/
structure Unopposed (arithmetic : Arithmetic) (policy : GatePolicy)
    (current baseline : DurableEvaluation) (rows : List EvidenceCaseDelta) : Prop where
  error : isError (compare arithmetic current baseline) = false
  incomplete : isIncomplete current = false
  shown : Shown policy current.traces
  critical : ∀ caseId ∈ policy.criticalCases, criticalReason (rowsOf rows)[caseId]? = none
  regressed : ∀ delta ∈ (compare arithmetic current baseline).metrics,
    (gateMetric arithmetic policy delta).regressed = false

section Shown

variable {policy : GatePolicy} {candidate : DurableEvaluation}

theorem tracedShort_eq_false : (tracedShort policy candidate).1 = false ↔
    (policy.requireTraces = true → ∃ trace, candidate.traces = some trace ∧
      trace.seen = trace.answers ∧ (∀ n, trace.onPrompt = some n → n = trace.answers) ∧
      (∀ n, trace.onModel = some n → n = trace.answers) ∧
      ∀ n, trace.onWorkflow = some n → n = trace.answers) := by
  unfold tracedShort
  split
  · cases candidate.traces with
    | none => simp [*]
    | some trace =>
      dsimp only
      split <;> simp_all [complete, covers_eq_true, and_assoc]
  · simp [*]

theorem witnessedShort_eq_false : (witnessedShort policy candidate).1 = false ↔
    (policy.requireWitness = true → ∃ trace, candidate.traces = some trace ∧
      (∀ n, trace.witnessedModel = some n → n = trace.answers) ∧
      ∀ n, trace.witnessedPrompt = some n → n = trace.answers) := by
  unfold witnessedShort
  split
  · cases candidate.traces with
    | none => simp [*]
    | some trace =>
      dsimp only
      split <;> simp_all [witnessed, covers_eq_true]
  · simp [*]

theorem exchangedShort_eq_false : (exchangedShort policy candidate).1 = false ↔
    (policy.requireWitnessedAnswer = true → ∃ trace, candidate.traces = some trace ∧
      (∀ n, trace.witnessedAnswer = some n → n = trace.answers) ∧
      (∀ n, trace.witnessedInput = some n → n = trace.answers) ∧
      (∀ n, trace.witnessedExchange = some n → n = trace.answers) ∧
      (∀ wanted, policy.askedSinceSeconds = some wanted →
        ∃ read, trace.askedSinceSeconds = some read ∧ wanted ≤ read) ∧
      (policy.askedElsewhereUnpinnedDenies = true → trace.askedElsewhereUnpinned = 0)) := by
  unfold exchangedShort
  split
  · cases candidate.traces with
    | none => simp [*]
    | some trace =>
      dsimp only
      split
      · rename_i hrequired hwitnessed
        simp only [answersWitnessed, Bool.and_eq_true, covers_eq_true] at hwitnessed
        split
        · rename_i short hshort
          obtain ⟨wanted, hwanted, hsince⟩ := Option.bind_eq_some_iff.mp hshort
          refine iff_of_false (by simp) fun h => ?_
          obtain ⟨_, ⟨⟩, -, -, -, hread, -⟩ := h hrequired
          rw [askedSinceShortOf_eq_none.mpr (hread wanted hwanted)] at hsince
          cases hsince
        · rename_i hshort
          have hread : ∀ wanted, policy.askedSinceSeconds = some wanted →
              ∃ read, trace.askedSinceSeconds = some read ∧ wanted ≤ read := fun wanted h =>
            askedSinceShortOf_eq_none.mp (by simpa [h] using hshort)
          split
          · rename_i hdenied
            simp_all [Nat.ne_of_gt hdenied.2]
          · simp_all
      · rename_i hwitnessed
        refine iff_of_false (by simp) fun h => hwitnessed ?_
        simp_all [answersWitnessed, covers_eq_true]
  · simp [*]

theorem shown_iff : Shown policy candidate.traces ↔ (tracedShort policy candidate).1 = false ∧
    (witnessedShort policy candidate).1 = false ∧ (exchangedShort policy candidate).1 = false := by
  rw [tracedShort_eq_false, witnessedShort_eq_false, exchangedShort_eq_false]
  exact ⟨fun h => ⟨h.traced, h.witnessed, h.exchanged⟩, fun h => ⟨h.1, h.2.1, h.2.2⟩⟩

end Shown

variable {arithmetic : Arithmetic} {current baseline : DurableEvaluation} {policy : GatePolicy}

theorem verdict_eq_pass {rows : List EvidenceCaseDelta} :
    (decide arithmetic (compare arithmetic current baseline) policy rows).verdict = .pass ↔
      Unopposed arithmetic policy current baseline rows := by
  have hcritical : ((policy.criticalCases.map (gateCase (rowsOf rows))).any (·.reason.isSome) =
      false) ↔ ∀ caseId ∈ policy.criticalCases, criticalReason (rowsOf rows)[caseId]? = none := by
    simp [gateCase, Function.comp_def]
  have hregressed : (((compare arithmetic current baseline).metrics.map
      (gateMetric arithmetic policy)).any (·.regressed) = false) ↔
      ∀ delta ∈ (compare arithmetic current baseline).metrics,
        (gateMetric arithmetic policy delta).regressed = false := by
    simp [Function.comp_def]
  constructor
  · intro h
    simp only [decide] at h
    split at h
    · cases h
    · split at h
      · cases h
      · split at h
        · cases h
        · rename_i herror hopposed hincomplete
          simp only [Bool.or_eq_true, not_or, Bool.not_eq_true] at herror hopposed hincomplete
          exact ⟨herror, hincomplete.1.1.1, shown_iff.mpr ⟨hincomplete.1.1.2, hincomplete.1.2,
            hincomplete.2⟩, hcritical.mp hopposed.2, hregressed.mp hopposed.1⟩
  · intro h
    have hshown := shown_iff.mp h.shown
    simp only [decide]
    rw [h.error, hregressed.mpr h.regressed, hcritical.mpr h.critical]
    simp only [compare, h.incomplete, hshown, Bool.or_self, Bool.false_eq_true, if_false]

theorem exists_of_getElem?_rowsOf {rows : List EvidenceCaseDelta} {caseId : String}
    {row : EvidenceCaseDelta} (h : (rowsOf rows)[caseId]? = some row) :
    row ∈ rows ∧ row.caseId = caseId := by
  have hfold : ∀ (held : BTreeMap String EvidenceCaseDelta),
      (rows.foldl (fun held row => held.insert row.caseId row) held)[caseId]? = some row →
      held[caseId]? = some row ∨ row ∈ rows ∧ row.caseId = caseId := by
    clear h
    induction rows with
    | nil => exact fun _ h => .inl h
    | cons first rest ih =>
      intro held h
      rcases ih (held.insert first.caseId first) h with h | h
      · rw [Library.Table.getElem?_insert] at h
        grind
      · grind
  simpa using hfold ∅ h

theorem caseHolds_of_criticalReason {cases : List DiffedCase} {caseId : String}
    (h : criticalReason (rowsOf (cases.map (·.row arithmetic)))[caseId]? = none) :
    CaseHolds (cases.map (·.row arithmetic)) caseId := by
  unfold criticalReason at h
  split at h
  · cases h
  · rename_i row hrow
    split at h
    · cases h
    · rename_i outcome houtcome
      split at h
      · cases h
      · rename_i herror
        split at h
        · cases h
        · rename_i hchange
          obtain ⟨hmem, hid⟩ := exists_of_getElem?_rowsOf hrow
          refine ⟨row, hmem, hid, ⟨outcome, houtcome, herror⟩, fun metric hmetric hworse => ?_⟩
          obtain ⟨case, -, rfl⟩ := List.mem_map.mp hmem
          exact hchange (change_diffCase_of_worse hmetric hworse)

theorem measured_of_isIncomplete {candidate : DurableEvaluation}
    (h : isIncomplete candidate = false) {counts : ResultCounts}
    (hcounts : candidate.counts = some counts) : counts.failed = 0 ∧ counts.unscored = 0 := by
  simpa [isIncomplete, hcounts] using h

theorem comparable_of_complete (herror : isError (compare arithmetic current baseline) = false)
    (hcomplete : current.state = .complete ∧ baseline.state = .complete) :
    (comparability current baseline).1 = .comparable := by
  refine comparability_eq_comparable.mpr ⟨?_, hcomplete⟩
  by_contra hapart
  simp [isError, compare, incompatible_of_apart hapart] at herror

theorem mem_metricNames_of_held {name : String} {better : MetricDirection}
    (h : Held policy current baseline name better) : name ∈ metricNames current baseline := by
  simp only [metricNames, mem_sortedNames, List.mem_append, Std.ExtTreeMap.mem_keys]
  exact .inl h.reported

theorem regressed_gateMetric {name : String} {better : MetricDirection} {now «then» : Double}
    (h : Held policy current baseline name better) (hnow : current.metrics[name]? = some now)
    (hthen : baseline.metrics[name]? = some «then») :
    (gateMetric arithmetic policy (metricDelta arithmetic true current baseline name)).regressed =
      Double.isLt (arithmetic.add (policy.allowed name) Double.noise)
        (worseBy (some (arithmetic.sub now «then»)) (some better)) := by
  simp [gateMetric, metricDelta, GatePolicy.allowed, hnow, hthen, h.directed, h.counted]

/-- **A pass is a comparison**, exactly where nothing else stands against the candidate only when
the two sides' numbers could be subtracted. -/
theorem gate_compares_iff (arithmetic : Arithmetic) (policy : GatePolicy)
    (current baseline : DurableEvaluation) (cases : List DiffedCase) :
    ((decide arithmetic (compare arithmetic current baseline) policy
        (cases.map (·.row arithmetic))).verdict = .pass →
      Compared arithmetic policy current baseline (cases.map (·.row arithmetic))) ↔
    (Unopposed arithmetic policy current baseline (cases.map (·.row arithmetic)) →
      Subtractable arithmetic policy current baseline) := by
  rw [verdict_eq_pass]
  refine imp_congr_right fun unopposed => ⟨fun compared => ?_, fun subtractable => ?_⟩
  · refine ⟨(comparability_eq_comparable.mp compared.comparable).2, fun name better held => ?_⟩
    obtain ⟨now, «then», hnow, hthen, hstands⟩ := compared.subtracted name better held
    exact ⟨now, «then», hnow, hthen, by simp [hstands]⟩
  · have hcomparable := comparable_of_complete unopposed.error subtractable.complete
    refine ⟨hcomparable, fun name better held => ?_, fun caseId hcase =>
      caseHolds_of_criticalReason (unopposed.critical caseId hcase), fun counts =>
      measured_of_isIncomplete unopposed.incomplete, unopposed.shown⟩
    obtain ⟨now, «then», hnow, hthen, hnoise⟩ := subtractable.reported name better held
    have hmem : metricDelta arithmetic true current baseline name ∈
        (compare arithmetic current baseline).metrics :=
      List.mem_map.mpr ⟨name, mem_metricNames_of_held held, by simp [hcomparable]⟩
    have hregressed := unopposed.regressed _ hmem
    rw [regressed_gateMetric held hnow hthen] at hregressed
    exact ⟨now, «then», hnow, hthen, by simpa [hregressed] using hnoise⟩

/-! ## A partial baseline -/

/-- Exact on the numbers of the pair below. -/
def exact : Arithmetic where
  add x y := if x = 0 then y else x
  sub x y := if x = y then 0 else x
  display bits := if bits = 0 then "0" else bits.toNat.repr

def accuracy : MetricDefinition := ⟨"accuracy", "rate", .higher, .mean, none⟩

def cohort : EvaluationContext where
  dataset := ⟨.curation, "questions", "3"⟩
  caseManifest := ⟨"cases", "blob://cases", "c0", some 2, "application/json", .blob, none⟩
  caseCount := 2
  split := "test"
  suite := ⟨"suite", "1"⟩
  scorer := ⟨"exact", "1"⟩
  inputSchema := ⟨"input", "blob://input", "c1", some 2, "application/json", .blob, none⟩
  expectationsSchema := ⟨"answers", "blob://answers", "c2", some 2, "application/json", .blob, none⟩
  judge := none
  externalCalibration := none
  metrics := [accuracy]

def measured (evaluationId : String) (state : EvidenceState) (status : ResultStatus)
    (counts : ResultCounts) (score : Double) : DurableEvaluation where
  receipt := ⟨evaluationId, evaluationId ++ "-1", evaluationId ++ "-variant", "cohort", 10, 1000⟩
  state := state
  manifest := some ⟨⟨"code", "git://" ++ evaluationId, "c3", some 2, "text/plain", .blob, none⟩,
    cohort⟩
  status := some status
  counts := some counts
  metrics := (∅ : BTreeMap String Double).insert "accuracy" score
  reproducible := true
  traces := none

/-- All cases measured, and `0.1` of them right. -/
def worsened : DurableEvaluation :=
  measured "candidate" .complete .succeeded ⟨2, 2, 0, 0⟩ 0x3FB999999999999A

/-- One case left unscored, and `0.9` of the rest right. -/
def partlyScored : DurableEvaluation :=
  measured "baseline" .partly .partly ⟨2, 1, 0, 1⟩ 0x3FECCCCCCCCCCCCD

/-- Nothing may get worse. -/
def strict : GatePolicy where
  tolerance := ∅
  ignore := []
  criticalCases := []
  requireTraces := false
  requireWitness := false
  requireWitnessedAnswer := false
  askedElsewhereUnpinnedDenies := false
  askedSinceSeconds := none

/-- The accuracy falls from `0.9` to `0.1`, and the gate passes. -/
theorem passes_uncompared :
    (decide exact (compare exact worsened partlyScored) strict []).verdict = .pass ∧
      ¬ Compared exact strict worsened partlyScored [] := by
  refine ⟨by decide +kernel, fun h => ?_⟩
  have hcomparability : (comparability worsened partlyScored).1 = .unverified := by decide +kernel
  rw [h.comparable] at hcomparability
  cases hcomparability

/-! ## Looser policies -/

/-- What one policy asks for, the other asks for as well. -/
structure GatePolicy.Looser (arithmetic : Arithmetic) (loose strict : GatePolicy) : Prop where
  ignore : ∀ name ∈ strict.ignore, name ∈ loose.ignore
  tolerance : ∀ name ∉ loose.ignore,
    (arithmetic.add (strict.allowed name) Double.noise).isNan = false ∧
      (arithmetic.add (strict.allowed name) Double.noise).place ≤
        (arithmetic.add (loose.allowed name) Double.noise).place
  criticalCases : ∀ caseId ∈ loose.criticalCases, caseId ∈ strict.criticalCases
  requireTraces : loose.requireTraces = true → strict.requireTraces = true
  requireWitness : loose.requireWitness = true → strict.requireWitness = true
  requireWitnessedAnswer : loose.requireWitnessedAnswer = true → strict.requireWitnessedAnswer = true
  askedElsewhere : loose.askedElsewhereUnpinnedDenies = true →
    strict.askedElsewhereUnpinnedDenies = true
  askedSince : ∀ wanted, loose.askedSinceSeconds = some wanted →
    ∃ longer, strict.askedSinceSeconds = some longer ∧ wanted ≤ longer

/-- **What passes a policy passes every looser one**, of the same two results and rows. -/
theorem pass_of_looser {loose strict : GatePolicy} (h : loose.Looser arithmetic strict)
    (rows : List EvidenceCaseDelta)
    (hpass : (decide arithmetic (compare arithmetic current baseline) strict rows).verdict = .pass) :
    (decide arithmetic (compare arithmetic current baseline) loose rows).verdict = .pass := by
  rw [verdict_eq_pass] at hpass ⊢
  refine { hpass with
    shown := ⟨fun hasked => ?_, fun hasked => ?_, fun hasked => ?_⟩
    critical := fun caseId hcase => hpass.critical caseId (h.criticalCases caseId hcase)
    regressed := fun delta hdelta => ?_ }
  · exact hpass.shown.traced (h.requireTraces hasked)
  · exact hpass.shown.witnessed (h.requireWitness hasked)
  · obtain ⟨trace, htrace, hanswer, hinput, hexchange, hsince, helsewhere⟩ :=
      hpass.shown.exchanged (h.requireWitnessedAnswer hasked)
    refine ⟨trace, htrace, hanswer, hinput, hexchange, fun wanted hwanted => ?_,
      fun hdenied => helsewhere (h.askedElsewhere hdenied)⟩
    obtain ⟨longer, hlonger, hle⟩ := h.askedSince wanted hwanted
    obtain ⟨read, hread, hlong⟩ := hsince longer hlonger
    exact ⟨read, hread, hle.trans hlong⟩
  · have hheld := hpass.regressed delta hdelta
    by_cases hignored : delta.name ∈ loose.ignore
    · simp [gateMetric, hignored]
    · obtain ⟨hnan, hle⟩ := h.tolerance delta.name hignored
      have hcounted : delta.name ∉ strict.ignore := fun hin => hignored (h.ignore _ hin)
      simp only [GatePolicy.allowed] at hnan hle
      simp only [gateMetric, List.contains_eq_mem, hcounted, hignored, decide_false, Bool.not_false,
        Bool.true_and, Double.isLt, hnan, Bool.and_eq_false_iff, Bool.not_eq_false',
        decide_eq_false_iff_not] at hheld ⊢
      grind

theorem pass_of_looser_ignoring :
    (decide exact (compare exact worsened partlyScored)
      { strict with ignore := ["accuracy"] } []).verdict = .pass :=
  @pass_of_looser exact worsened partlyScored { strict with ignore := ["accuracy"] } strict
    ⟨by simp [strict], fun name _ => ⟨by
        rw [show strict.allowed name = 0 from rfl]
        decide +kernel, le_rfl⟩, by simp, id, id, id, id, fun wanted h => ⟨wanted, h, le_rfl⟩⟩ []
    (by decide +kernel)

end Aiwatcher.Evaluations
