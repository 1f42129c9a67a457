import Aiwatcher.ReadModel.Spans

/-!
# Aiwatcher.ReadModel.Retained

What the panel keeps to over any events and spans: `span_law_iff`.  A run's last spans come after
the event that ends it, and where that event evicted it, or the run was never seen, nothing ever
drops them: `span_of_evicted`.
-/

namespace Aiwatcher.ReadModel

open Library Workflows Trace

inductive PanelAct where
  | apply (event : RecordedEvent)
  | recordSpans (spans : List CompletedSpan)

/-- The panel an act leaves before runs are evicted for it. -/
def Panel.unevicted (floats : Floats) (config : PanelConfig) (panel : Panel) : PanelAct → Panel
  | .apply event => if opens event then panel.folded floats config event else panel
  | .recordSpans _ => panel

def Panel.perform (floats : Floats) (config : PanelConfig) (panel : Panel) : PanelAct → Panel
  | .apply event => panel.apply floats config event
  | .recordSpans spans => panel.recordSpans config spans

def panel (floats : Floats) (config : PanelConfig) : Machine Panel PanelAct Unit where
  step panel act := some ([], panel.perform floats config act)

variable (floats : Floats) (config : PanelConfig)

/-- What a step must leave. -/
structure SpanLaw (st : Step Panel PanelAct Unit) : Prop where
  attached : st.after.Attached
  counted : st.after.spanCount = Panel.total st.after.spans
  budget : ∀ spans, st.input = .recordSpans spans → st.after.WithinBudget config
  running : ∀ runId : String,
    running (st.before.unevicted floats config st.input).runs runId = true →
      st.after.runs[runId]? = (st.before.unevicted floats config st.input).runs[runId]?

/-- Where a step leaves it: spans are recorded of held runs only, and a call without any finds the
budget met. -/
def Meets (before : Panel) : PanelAct → Prop
  | .apply _ => True
  | .recordSpans spans =>
    (∀ span ∈ spans, ∀ runId, runOf span = some runId → (before.runs[runId]?).isSome) ∧
      (spans = [] → before.WithinBudget config)

variable {floats config}

theorem Panel.Kept.perform {panel : Panel} (h : panel.Kept) (act : PanelAct) :
    (panel.perform floats config act).Kept := by
  cases act with
  | apply event => exact (Panel.apply_spec h floats event).1
  | recordSpans spans => exact (Panel.recordSpans_spec panel spans).2 h

theorem Panel.Attached.perform {panel : Panel} (hkept : panel.Kept) (h : panel.Attached)
    {act : PanelAct} (hmeets : Meets config panel act) :
    (panel.perform floats config act).Attached := by
  cases act with
  | apply event => exact (Panel.apply_spec hkept floats event).2 h
  | recordSpans spans => exact h.recordSpans hmeets.1

theorem running_perform {panel : Panel} (hkept : panel.Kept) (act : PanelAct) {runId : String}
    (h : running (panel.unevicted floats config act).runs runId = true) :
    (panel.perform floats config act).runs[runId]? =
      (panel.unevicted floats config act).runs[runId]? := by
  cases act with
  | recordSpans spans =>
    unfold Panel.perform Panel.unevicted
    rw [(Panel.recordSpans_spec panel spans).1]
  | apply event =>
    have hran := @Panel.Kept.folded _ config hkept floats event
    unfold Panel.unevicted at h ⊢
    unfold Panel.perform Panel.apply
    dsimp only at h ⊢
    cases hsubject : event.eventType.subject with
    | eval => simp [opens, hsubject]
    | client => simp [opens, hsubject]
    | _ =>
      have hopens : opens event = true := by simp [opens, hsubject]
      rw [if_pos hopens] at h ⊢
      exact (Panel.evict_spec hran config.maxRuns).2.2 runId h

theorem spanLaw_of_meets {st : Step Panel PanelAct Unit} (hkept : st.before.Kept)
    (hattached : st.before.Attached) (hafter : st.after = st.before.perform floats config st.input)
    (h : Meets config st.before st.input) : SpanLaw floats config st := by
  obtain ⟨before, act, out, after⟩ := st
  dsimp only at hkept hattached hafter h
  subst hafter
  have hstays := @Panel.Attached.perform floats config _ hkept hattached _ h
  refine ⟨hstays, (hkept.perform act).counted, fun spans hact => ?_, fun runId hrunning =>
    running_perform hkept act hrunning⟩
  dsimp only at hact
  subst hact
  by_cases hempty : spans = []
  · subst hempty
    exact h.2 rfl
  · exact Panel.withinBudget_recordSpans hkept hempty hstays

/-- A span of a run that is not held leaves a bucket of it. -/
theorem meets_of_spanLaw {st : Step Panel PanelAct Unit} (hkept : st.before.Kept)
    (hafter : st.after = st.before.perform floats config st.input)
    (h : SpanLaw floats config st) : Meets config st.before st.input := by
  obtain ⟨before, act, out, after⟩ := st
  dsimp only at hkept hafter
  subst hafter
  cases act with
  | apply event => exact trivial
  | recordSpans spans =>
    refine ⟨fun span hspan runId hrun => ?_, fun hempty => ?_⟩
    · by_contra hunheld
      rw [Option.not_isSome_iff_eq_none] at hunheld
      have hbucket := @Panel.isSome_recordSpans _ config spans hkept runId hunheld
        (.inr ⟨span, hspan, hrun⟩)
      have hheld := h.attached runId hbucket
      have hruns := congrArg State.runs (@Panel.recordSpans_spec config before spans).1
      dsimp only [Panel.perform] at hheld
      rw [hruns, hunheld] at hheld
      cases hheld
    · subst hempty
      exact h.budget [] rfl

/-- **Retention**: over any events and spans, every bucket is of a run that is held, the total is
the buckets', what is recorded meets the budget but for running runs' spans, and no running run is
evicted, exactly where spans are only recorded of runs that are held, and no call without spans
finds the budget exceeded. -/
theorem span_law_iff (floats : Floats) (config : PanelConfig) (acts : List PanelAct) :
    (∀ st ∈ (panel floats config).run {} acts, SpanLaw floats config st) ↔
      ∀ st ∈ (panel floats config).run {} acts, Meets config st.before st.input := by
  have hafter : ∀ {s s' : Panel} {act out}, (panel floats config).step s act = some (out, s') →
      s' = s.perform floats config act := fun h => by
    cases h
    rfl
  have hnew : Panel.Kept {} := ⟨by simp, by simp, rfl⟩
  have hkept := @Machine.inv_of_mem_run _ _ _ (panel floats config) Panel.Kept (fun _ _ => True)
    (fun panel act out after h _ hstep => hafter hstep ▸ h.perform act) {} acts
    hnew (fun _ _ => trivial)
  refine ⟨fun h st hst => ?_, fun h st hst => ?_⟩
  · exact meets_of_spanLaw (hkept st hst).1 (hafter (Machine.step_of_mem_run hst)) (h st hst)
  · have hattached := @Machine.inv_of_mem_run _ _ _ (panel floats config)
      (fun panel => panel.Kept ∧ panel.Attached) (Meets config)
      (fun panel act out after h hmeets hstep => by
        rw [hafter hstep]
        exact ⟨h.1.perform act, h.2.perform h.1 hmeets⟩)
      {} acts
      ⟨hnew, fun runId h => by simp at h⟩ h st hst
    exact spanLaw_of_meets hattached.1.1 hattached.1.2 (hafter (Machine.step_of_mem_run hst))
      (h st hst)

/-- An event of a run, of no workflow. -/
def ofRun (runId : String) (eventType : EventType) : RecordedEvent :=
  let event := eventOf eventType 1 "m-1" "import" "one" []
  { event with metadata := { event.metadata with runId, workflowId := none } }

def spanOf (runId : String) : CompletedSpan :=
  ⟨1, 1, none, "run", .internal, 1, 2, .ok, [("aiwatcher.run.id", .str runId)], []⟩

/-- Two runs are held where one may be; the first ends. -/
def overfull : List PanelAct :=
  [.apply (ofRun "run-1" .runStarted), .apply (ofRun "run-2" .runStarted),
    .apply (ofRun "run-1" .runCompleted)]

def oneRun : PanelConfig := { maxRuns := 1 }

/-- The event that ends a run evicts it, and then the span it closed is recorded. -/
theorem span_of_evicted : ¬ ∀ st ∈ (panel noNumbers oneRun).run {}
    (overfull ++ [.recordSpans [spanOf "run-1"]]), SpanLaw noNumbers oneRun st := by
  intro h
  have hlaw := h ⟨(panel noNumbers oneRun).last {} overfull, .recordSpans [spanOf "run-1"], [],
    (panel noNumbers oneRun).last {} (overfull ++ [.recordSpans [spanOf "run-1"]])⟩ (by
      rw [Machine.run_append]
      simp [Machine.run, Machine.last_append, Machine.last, panel])
  have hheld := hlaw.attached "run-1" (by decide +kernel)
  exact absurd hheld (by decide +kernel)

/-! ## The spans apart -/

def PanelAct.event? : PanelAct → Option RecordedEvent
  | .apply event => some event
  | .recordSpans _ => none

/-- **Spans move nothing**: what spans are recorded, and when, the runs, their workflows and which
of them are evicted are those of the events alone. -/
theorem spans_move_nothing (floats : Floats) (config : PanelConfig) (acts : List PanelAct) :
    ((panel floats config).last {} acts).toState =
      (acts.filterMap PanelAct.event?).foldl (State.apply floats config.toReadModelConfig) {} := by
  suffices h : ∀ start : Panel, ((panel floats config).last start acts).toState =
      (acts.filterMap PanelAct.event?).foldl (State.apply floats config.toReadModelConfig)
        start.toState from h {}
  intro start
  induction acts generalizing start with
  | nil => rfl
  | cons act acts ih =>
    rw [Machine.last_cons_some rfl, ih]
    cases act with
    | apply event => exact congrArg (List.foldl _ · _) (Panel.apply_toState ..)
    | recordSpans spans => exact congrArg (List.foldl _ · _) (Panel.recordSpans_spec ..).1

end Aiwatcher.ReadModel
