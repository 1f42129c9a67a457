import Aiwatcher.ReadModel.Redelivered
import Aiwatcher.Trace.Assembler

/-!
# Aiwatcher.ReadModel.Spans

The spans the panel holds beside the runs (`readmodel.rs`): a bucket a run, a total, and a budget
that whole buckets are dropped for.
-/

namespace Aiwatcher.ReadModel

open Library Trace List Table

structure PanelConfig extends ReadModelConfig where
  maxSpansPerRun : Nat := 500
  maxSpansTotal : Nat := 60000

/-- The panel with its spans. -/
structure Panel extends State where
  spans : BTreeMap String (List CompletedSpan) := ∅
  spanCount : Nat := 0

/-- The run a span says it is of. -/
def runOf (span : CompletedSpan) : Option String :=
  span.attributes.findSome? fun said =>
    if said.1 = "aiwatcher.run.id" then
      match said.2 with
      | .str runId => some runId
      | _ => none
    else none

/-- Whether a run is held and running. -/
def running (runs : BTreeMap String RunSummary) (runId : String) : Bool :=
  runs[runId]?.any fun run => run.status = .running

namespace Panel

/-- The spans of a run, one replaced or added. -/
def fill (bucket : List CompletedSpan) (span : CompletedSpan) : List CompletedSpan :=
  if bucket.any (·.spanId = span.spanId) then
    updateFirst (fun held => held.spanId = span.spanId) (fun _ => span) bucket
  else bucket ++ [span]

/-- One span put into its run's bucket, which is trimmed from its front. -/
def record (config : PanelConfig) (panel : Panel) (span : CompletedSpan) : Panel :=
  match runOf span with
  | none => panel
  | some runId =>
    let bucket := panel.spans[runId]?.getD []
    let filled := fill bucket span
    let added := if bucket.any (·.spanId = span.spanId) then 0 else 1
    let trimmed := filled.length - config.maxSpansPerRun
    { panel with
      spans := panel.spans.insert runId (filled.drop trimmed)
      spanCount := panel.spanCount + added - trimmed }

/-- A run's spans go, and out of the total. -/
def dropSpans (panel : Panel) (runId : String) : Panel :=
  match panel.spans[runId]? with
  | none => panel
  | some dropped => { panel with
      spans := panel.spans.erase runId
      spanCount := panel.spanCount - dropped.length }

/-- One run of the walk of `shed_spans`: it stops at the budget and passes running runs. -/
def shed (maxSpansTotal : Nat) (panel : Panel) (runId : String) : Panel :=
  if panel.spanCount ≤ maxSpansTotal then panel
  else if running panel.runs runId then panel
  else panel.dropSpans runId

def shedSpans (maxSpansTotal : Nat) (panel : Panel) : Panel :=
  panel.order.foldl (shed maxSpansTotal) panel

/-- Attach finished spans to their run. -/
def recordSpans (config : PanelConfig) (panel : Panel) (spans : List CompletedSpan) : Panel :=
  if spans.isEmpty then panel
  else shedSpans config.maxSpansTotal (spans.foldl (record config) panel)

/-- A run goes, with its spans. -/
def dropRun (panel : Panel) (runId : String) : Panel :=
  { panel with runs := panel.runs.erase runId }.dropSpans runId

/-- Drop the oldest finished runs once over the cap. -/
def evict (panel : Panel) (maxRuns : Nat) : Panel :=
  if panel.runs.size ≤ maxRuns then panel
  else
    let walk := Evicting.walk (fun (panel : Panel) runId => State.finished panel.runs runId)
      dropRun (panel.runs.size - maxRuns) panel.order panel
    { walk.state with order := walk.keep }

/-- An event folded into its run and its workflow, before anything is dropped for it. -/
def folded (floats : Floats) (config : PanelConfig) (panel : Panel) (event : RecordedEvent) :
    Panel :=
  let ran := (panel.toState.heard event).ran floats event
  { panel with toState := { ran with
    workflows := ran.workflows.apply floats config.workflows event } }

/-- Fold one event in. -/
def apply (floats : Floats) (config : PanelConfig) (panel : Panel) (event : RecordedEvent) :
    Panel :=
  match event.eventType.subject with
  | .eval => panel
  | .client => { panel with measured := panel.measured.apply event }
  | _ => (panel.folded floats config event).evict config.maxRuns

/-! ## The runs alone -/

theorem toState_dropSpans (panel : Panel) (runId : String) :
    (panel.dropSpans runId).toState = panel.toState := by
  unfold dropSpans
  split <;> rfl

theorem toState_dropRun (panel : Panel) (runId : String) : (panel.dropRun runId).toState =
    { panel.toState with runs := panel.runs.erase runId } := by
  rw [dropRun, toState_dropSpans]

theorem toState_evict (panel : Panel) (maxRuns : Nat) :
    (panel.evict maxRuns).toState = panel.toState.evict maxRuns := by
  unfold evict State.evict
  split
  · rfl
  · have hmay : ∀ (panel : Panel) (runId : String),
        State.finished panel.runs runId = State.finished panel.runs runId := fun _ _ => rfl
    have hdrop : ∀ (panel : Panel) (runId : String),
        (panel.dropRun runId).runs = panel.runs.erase runId := fun panel runId => by
      rw [toState_dropRun]
    obtain ⟨hruns, hkeep⟩ := Evicting.walk_map (fun panel : Panel => panel.runs) hmay hdrop
      (panel.runs.size - maxRuns) panel.order panel
    -- the walk changes nothing but the runs
    have hrest := @Evicting.walk_state _ _ (fun (panel : Panel) runId =>
        State.finished panel.runs runId) dropRun
      (fun walked => walked.workflows = panel.workflows ∧ walked.measured = panel.measured)
      (fun walked runId h _ => by rw [toState_dropRun]; exact h)
      (panel.runs.size - maxRuns) panel.order panel ⟨rfl, rfl⟩
    rw [State.mk.injEq]
    exact ⟨hruns, hkeep, hrest.1, hrest.2⟩

/-- **Refinement**: what the spans are held beside is the state without them. -/
theorem apply_toState (floats : Floats) (config : PanelConfig) (panel : Panel)
    (event : RecordedEvent) : (panel.apply floats config event).toState =
      panel.toState.apply floats config.toReadModelConfig event := by
  unfold apply State.apply
  cases hsubject : event.eventType.subject with
  | eval => rfl
  | client => rfl
  | _ => exact toState_evict _ _

/-! ## The books -/

/-- The spans of some buckets. -/
def total (spans : BTreeMap String (List CompletedSpan)) : Nat :=
  Table.tally (fun _ bucket => bucket.length) spans

/-- What holds in any case: the order names each held run once, and the total is the spans'. -/
structure Kept (panel : Panel) : Prop where
  once : panel.order.Nodup
  ordered : ∀ runId, runId ∈ panel.order ↔ (panel.runs[runId]?).isSome
  counted : panel.spanCount = total panel.spans

/-- Every bucket belongs to a run that is held. -/
def Attached (panel : Panel) : Prop :=
  ∀ runId : String, (panel.spans[runId]?).isSome → (panel.runs[runId]?).isSome

/-- The total is within the budget, or running runs hold all the spans that are left. -/
def WithinBudget (config : PanelConfig) (panel : Panel) : Prop :=
  panel.spanCount ≤ config.maxSpansTotal ∨
    ∀ (runId : String) bucket, panel.spans[runId]? = some bucket → bucket ≠ [] →
      running panel.runs runId = true

variable {panel : Panel} {config : PanelConfig}

theorem getElem?_dropSpans (panel : Panel) (runId other : String) :
    (panel.dropSpans runId).spans[other]? =
      if runId = other then none else panel.spans[other]? := by
  unfold dropSpans
  split
  · rename_i hnone
    split
    · rename_i heq
      rw [← heq, hnone]
    · rfl
  · exact getElem?_erase _ _ _

theorem total_eq_add {spans : BTreeMap String (List CompletedSpan)} {runId : String}
    {bucket : List CompletedSpan} (h : spans[runId]? = some bucket) :
    total spans = bucket.length + total (spans.erase runId) :=
  tally_eq_add h

theorem counted_dropSpans (h : panel.spanCount = total panel.spans) (runId : String) :
    (panel.dropSpans runId).spanCount = total (panel.dropSpans runId).spans := by
  unfold dropSpans
  split
  · exact h
  · rename_i dropped hdropped
    have hsum := total_eq_add hdropped
    dsimp only
    omega

theorem length_fill (bucket : List CompletedSpan) (span : CompletedSpan) :
    (fill bucket span).length =
      bucket.length + if bucket.any (·.spanId = span.spanId) then 0 else 1 := by
  have hsame : ∀ items : List CompletedSpan,
      (updateFirst (fun held => held.spanId = span.spanId) (fun _ => span) items).length =
        items.length := by
    intro items
    induction items with
    | nil => rfl
    | cons held items ih =>
      unfold updateFirst
      split <;> simp [ih]
  unfold fill
  split
  · exact hsame bucket
  · simp

theorem Kept.record (h : panel.Kept) (span : CompletedSpan) : (panel.record config span).Kept := by
  unfold Panel.record
  split
  · exact h
  · rename_i runId hrun
    refine ⟨h.once, h.ordered, ?_⟩
    have hcounted := h.counted
    have hfill := length_fill (panel.spans[runId]?.getD []) span
    have hinto : ∀ bucket, total (panel.spans.insert runId bucket) =
        bucket.length + total (panel.spans.erase runId) := fun bucket =>
      tally_insert _ panel.spans runId bucket
    have hheld : total panel.spans =
        (panel.spans[runId]?.getD []).length + total (panel.spans.erase runId) := by
      cases hbucket : panel.spans[runId]? with
      | none => rw [Table.erase_of_getElem?_eq_none hbucket]; simp
      | some bucket => exact total_eq_add hbucket
    dsimp only
    rw [hinto, length_drop]
    omega

theorem toState_record (panel : Panel) (span : CompletedSpan) :
    (panel.record config span).toState = panel.toState := by
  unfold Panel.record
  split <;> rfl

theorem isSome_record (panel : Panel) (span : CompletedSpan) (runId : String) :
    ((panel.record config span).spans[runId]?).isSome ↔
      (panel.spans[runId]?).isSome ∨ runOf span = some runId := by
  unfold Panel.record
  split
  · rename_i hnone
    simp [hnone]
  · rename_i own hown
    dsimp only
    rw [Table.getElem?_insert, hown]
    by_cases heq : own = runId
    · simp [heq]
    · simp [heq]

theorem record_all (spans : List CompletedSpan) (panel : Panel) :
    (spans.foldl (Panel.record config) panel).toState = panel.toState ∧
      (panel.Kept → (spans.foldl (Panel.record config) panel).Kept) ∧
      ∀ runId : String, ((spans.foldl (Panel.record config) panel).spans[runId]?).isSome ↔
        (panel.spans[runId]?).isSome ∨ ∃ span ∈ spans, runOf span = some runId := by
  induction spans generalizing panel with
  | nil => simp
  | cons span spans ih =>
    obtain ⟨hstate, hkept, hsome⟩ := ih (panel.record config span)
    rw [foldl_cons]
    refine ⟨hstate.trans (toState_record panel span), fun h => hkept (h.record span), ?_⟩
    intro runId
    rw [hsome, isSome_record, or_assoc, exists_mem_cons_iff]

/-! ## Shedding -/

theorem Kept.dropSpans (h : panel.Kept) (runId : String) : (panel.dropSpans runId).Kept := by
  have hstate := toState_dropSpans panel runId
  refine ⟨?_, ?_, counted_dropSpans h.counted runId⟩
  · rw [hstate]
    exact h.once
  · rw [hstate]
    exact h.ordered

/-- What shedding leaves: the runs, and spans of none but those it had; and where the budget
is not met, no spans but running runs' of the runs it went through. -/
theorem shed_all (maxSpansTotal : Nat) (rest : List String) (panel : Panel) :
    (rest.foldl (shed maxSpansTotal) panel).toState = panel.toState ∧
      (panel.Kept → (rest.foldl (shed maxSpansTotal) panel).Kept) ∧
      (∀ (runId : String) bucket,
        (rest.foldl (shed maxSpansTotal) panel).spans[runId]? = some bucket →
          panel.spans[runId]? = some bucket) ∧
      (∀ runId : String, runId ∉ rest →
        (rest.foldl (shed maxSpansTotal) panel).spans[runId]? = panel.spans[runId]?) ∧
      (rest.foldl (shed maxSpansTotal) panel).spanCount ≤ panel.spanCount ∧
      ((rest.foldl (shed maxSpansTotal) panel).spanCount ≤ maxSpansTotal ∨
        ∀ runId ∈ rest, running panel.runs runId = false →
          (rest.foldl (shed maxSpansTotal) panel).spans[runId]? = none) := by
  induction rest generalizing panel with
  | nil => simp
  | cons first rest ih =>
    obtain ⟨hstate, hkept, hsub, hother, hless, hmet⟩ := ih (panel.shed maxSpansTotal first)
    have hsame : (panel.shed maxSpansTotal first).toState = panel.toState := by
      unfold shed
      split
      · rfl
      · split
        · rfl
        · exact toState_dropSpans panel first
    have hdown : (panel.shed maxSpansTotal first).spanCount ≤ panel.spanCount := by
      unfold shed
      split
      · exact Nat.le_refl _
      · split
        · exact Nat.le_refl _
        · unfold Panel.dropSpans
          split
          · exact Nat.le_refl _
          · exact Nat.sub_le _ _
    have hstep : ∀ runId : String, (panel.shed maxSpansTotal first).spans[runId]? =
        panel.spans[runId]? ∨ first = runId ∧
          (panel.shed maxSpansTotal first).spans[runId]? = none := by
      intro runId
      unfold shed
      split
      · exact .inl rfl
      · split
        · exact .inl rfl
        · rw [getElem?_dropSpans]
          split
          · rename_i heq
            exact .inr ⟨heq, rfl⟩
          · exact .inl rfl
    rw [foldl_cons]
    refine ⟨hstate.trans hsame, fun h => hkept ?_, fun runId bucket hbucket => ?_,
      fun runId hout => ?_, hless.trans hdown, ?_⟩
    · unfold shed
      split
      · exact h
      · split
        · exact h
        · exact h.dropSpans first
    · have hbefore := hsub runId bucket hbucket
      rcases hstep runId with hequal | ⟨-, hnone⟩
      · rw [← hequal, hbefore]
      · rw [hnone] at hbefore
        cases hbefore
    · rw [mem_cons, not_or] at hout
      rw [hother runId hout.2]
      exact (hstep runId).resolve_right fun h => hout.1 h.1.symm
    · by_cases hover : (rest.foldl (shed maxSpansTotal)
          (panel.shed maxSpansTotal first)).spanCount ≤ maxSpansTotal
      · exact .inl hover
      · refine .inr fun runId hmem hidle => ?_
        rw [← hsame] at hidle
        rcases mem_cons.mp hmem with rfl | hmem
        · have hgone : (panel.shed maxSpansTotal runId).spans[runId]? = none := by
            rw [hsame] at hidle
            rw [shed, if_neg (by omega), if_neg (by simp [hidle]), getElem?_dropSpans, if_pos rfl]
          cases hleft : (rest.foldl (shed maxSpansTotal)
              (panel.shed maxSpansTotal runId)).spans[runId]? with
          | none => rfl
          | some bucket => rw [← hsub runId bucket hleft, hgone]
        · exact hmet.resolve_left hover runId hmem hidle

/-- **Recording**: the runs stay, the books stay true, and where every span's run is held the
budget is met. -/
theorem recordSpans_spec (panel : Panel) (spans : List CompletedSpan) :
    (panel.recordSpans config spans).toState = panel.toState ∧
      (panel.Kept → (panel.recordSpans config spans).Kept) := by
  unfold recordSpans
  split
  · exact ⟨rfl, id⟩
  · obtain ⟨hstate, hkept, -⟩ := @record_all config spans panel
    obtain ⟨hstate', hkept', -⟩ := shed_all config.maxSpansTotal
      (spans.foldl (Panel.record config) panel).order (spans.foldl (Panel.record config) panel)
    exact ⟨hstate'.trans hstate, fun h => hkept' (hkept h)⟩

theorem isSome_recordSpans {spans : List CompletedSpan} (hkept : panel.Kept) {runId : String}
    (hunheld : panel.runs[runId]? = none)
    (hspan : (panel.spans[runId]?).isSome ∨ ∃ span ∈ spans, runOf span = some runId) :
    ((panel.recordSpans config spans).spans[runId]?).isSome := by
  unfold recordSpans
  split
  · rename_i hempty
    rw [List.isEmpty_iff] at hempty
    subst hempty
    simpa using hspan
  · obtain ⟨hstate, -, hsome⟩ := @record_all config spans panel
    obtain ⟨-, -, -, hother, -⟩ := shed_all config.maxSpansTotal
      (spans.foldl (Panel.record config) panel).order (spans.foldl (Panel.record config) panel)
    rw [shedSpans, hother, hsome]
    · exact hspan
    · rw [hstate, hkept.ordered, hunheld]
      simp

theorem Attached.recordSpans {spans : List CompletedSpan} (h : panel.Attached)
    (hheld : ∀ span ∈ spans, ∀ runId, runOf span = some runId → (panel.runs[runId]?).isSome) :
    (panel.recordSpans config spans).Attached := by
  intro runId hsome
  rw [(recordSpans_spec panel spans).1]
  unfold Panel.recordSpans at hsome
  split at hsome
  · exact h runId hsome
  · obtain ⟨-, -, hrecorded⟩ := @record_all config spans panel
    obtain ⟨-, -, hsub, -⟩ := shed_all config.maxSpansTotal
      (spans.foldl (Panel.record config) panel).order (spans.foldl (Panel.record config) panel)
    obtain ⟨bucket, hbucket⟩ := Option.isSome_iff_exists.mp hsome
    have hbefore := hsub runId bucket hbucket
    rcases (hrecorded runId).mp (by simp [hbefore]) with hheld' | ⟨span, hspan, hrun⟩
    · exact h runId hheld'
    · exact hheld span hspan runId hrun

theorem withinBudget_recordSpans {spans : List CompletedSpan} (hkept : panel.Kept)
    (hne : spans ≠ []) (hattached : (panel.recordSpans config spans).Attached) :
    (panel.recordSpans config spans).WithinBudget config := by
  have hstate := (@recordSpans_spec config panel spans).1
  have hempty : spans.isEmpty = false := by simp [hne]
  unfold WithinBudget
  unfold Attached at hattached
  rw [hstate] at hattached ⊢
  rw [Panel.recordSpans, if_neg (by simp [hempty])] at hattached ⊢
  obtain ⟨hrecorded, -, -⟩ := @record_all config spans panel
  obtain ⟨-, -, -, -, -, hmet⟩ := shed_all config.maxSpansTotal
    (spans.foldl (Panel.record config) panel).order (spans.foldl (Panel.record config) panel)
  rcases hmet with hmet | hmet
  · exact .inl hmet
  · refine .inr fun runId bucket hbucket _ => ?_
    by_contra hidle
    have hheld := hattached runId (by rw [hbucket]; rfl)
    rw [hrecorded] at hmet
    have hnone := hmet runId ((hkept.ordered runId).mpr hheld) (by simpa using hidle)
    rw [shedSpans, hrecorded, hnone] at hbucket
    cases hbucket

/-! ## Events -/

theorem runs_folded (floats : Floats) (panel : Panel) (event : RecordedEvent) :
    (panel.folded floats config event).runs = Table.entry panel.runs event.metadata.runId
      (.new event) (·.apply floats event) ∧
    (panel.folded floats config event).order =
      (if panel.runs.contains event.metadata.runId then panel.order
        else panel.order ++ [event.metadata.runId]) := by
  have hheard : (panel.toState.heard event).runs = panel.runs ∧
      (panel.toState.heard event).order = panel.order := by
    unfold State.heard
    split <;> exact ⟨rfl, rfl⟩
  obtain ⟨hruns, horder⟩ := hheard
  refine ⟨?_, ?_⟩
  · simp only [folded, State.ran]
    rw [hruns]
  · simp only [folded, State.ran]
    rw [hruns, horder]

theorem Kept.folded (h : panel.Kept) (floats : Floats) (event : RecordedEvent) :
    (panel.folded floats config event).Kept := by
  obtain ⟨hruns, horder⟩ := @runs_folded config floats panel event
  have hcontains : panel.runs.contains event.metadata.runId =
      (panel.runs[event.metadata.runId]?).isSome := by
    rw [Std.ExtTreeMap.contains_eq_isSome_getElem?]
  refine ⟨?_, ?_, h.counted⟩
  · rw [horder]
    split
    · exact h.once
    · rename_i hnew
      rw [hcontains, ← h.ordered] at hnew
      exact nodup_append.mpr ⟨h.once, by simp, by
        intro a ha b hb heq
        rw [mem_singleton.mp hb] at heq
        exact hnew (heq ▸ ha)⟩
  · intro runId
    rw [hruns, horder, getElem?_entry]
    by_cases heq : event.metadata.runId = runId
    · subst heq
      rw [if_pos rfl]
      split
      · rename_i hold
        rw [hcontains, ← h.ordered] at hold
        simp [hold]
      · simp
    · rw [if_neg heq, ← h.ordered]
      split
      · rfl
      · simp [Ne.symm heq]

theorem Attached.folded (h : panel.Attached) (floats : Floats) (event : RecordedEvent) :
    (panel.folded floats config event).Attached := by
  intro runId hspans
  rw [(@runs_folded config floats panel event).1, getElem?_entry]
  split
  · rfl
  · exact h runId hspans

theorem Attached.dropRun (h : panel.Attached) (runId : String) : (panel.dropRun runId).Attached := by
  intro other hspans
  rw [Panel.dropRun, getElem?_dropSpans] at hspans
  rw [toState_dropRun, getElem?_erase]
  split at hspans
  · cases hspans
  · rename_i hne
    rw [if_neg hne]
    exact h other hspans

/-- What holds of an eviction's walk, with the runs it has not come to. -/
structure Walked (panel : Panel) (walk : Evicting Panel String) (rest : List String) : Prop where
  once : (walk.keep ++ rest).Nodup
  ordered : ∀ runId, runId ∈ walk.keep ++ rest ↔ (walk.state.runs[runId]?).isSome
  counted : walk.state.spanCount = total walk.state.spans
  attached : panel.Attached → walk.state.Attached
  running : ∀ runId : String, running panel.runs runId = true →
    walk.state.runs[runId]? = panel.runs[runId]?

theorem Walked.drop {walk : Evicting Panel String} {runId : String} {rest : List String}
    (h : Walked panel walk (runId :: rest))
    (hmay : State.finished walk.state.runs runId = true) : Walked panel
      ⟨dropRun walk.state runId, walk.excess - 1, walk.keep, walk.gone ++ [runId]⟩ rest := by
  have honce := nodup_middle.mp h.once
  rw [nodup_cons] at honce
  have hcounted := @counted_dropSpans
    { walk.state with runs := walk.state.runs.erase runId } h.counted runId
  refine ⟨honce.2, fun other => ?_, hcounted, fun hattached =>
    (h.attached hattached).dropRun runId, fun other hrunning => ?_⟩
  · have hother := h.ordered other
    rw [toState_dropRun, getElem?_erase]
    by_cases heq : runId = other
    · subst heq
      simpa using honce.1
    · rw [if_neg heq, ← hother]
      simp [Ne.symm heq]
  · rw [toState_dropRun, getElem?_erase, if_neg, h.running other hrunning]
    rintro rfl
    -- a finished run is not running
    rw [State.finished, h.running _ hrunning] at hmay
    unfold ReadModel.running at hrunning
    cases hrun : panel.runs[runId]? with
    | none => simp [hrun] at hmay
    | some run =>
      simp only [hrun, Option.any_some, decide_eq_true_eq] at hmay hrunning
      exact hmay hrunning

/-- **Eviction**: the books stay true, spans stay attached, and running runs stay. -/
theorem evict_spec (hkept : panel.Kept) (maxRuns : Nat) :
    (panel.evict maxRuns).Kept ∧ (panel.Attached → (panel.evict maxRuns).Attached) ∧
      ∀ runId : String, running panel.runs runId = true →
        (panel.evict maxRuns).runs[runId]? = panel.runs[runId]? := by
  unfold evict
  split
  · exact ⟨hkept, id, fun _ _ => rfl⟩
  · obtain ⟨honce, hordered, hcounted, hattached, hrunning⟩ := @Evicting.walk_induction _ _
      (fun panel runId => State.finished panel.runs runId) dropRun (Walked panel)
      (fun _ _ _ h hmay => h.drop hmay)
      (fun walk runId rest h => ⟨by simpa using h.once, by simpa using h.ordered, h.counted,
        h.attached, h.running⟩)
      (panel.runs.size - maxRuns) panel.order panel
      ⟨hkept.once, hkept.ordered, hkept.counted, id, fun _ _ => rfl⟩
    rw [append_nil] at honce
    simp only [append_nil] at hordered
    exact ⟨⟨honce, hordered, hcounted⟩, hattached, hrunning⟩

theorem apply_spec (hkept : panel.Kept) (floats : Floats) (event : RecordedEvent) :
    (panel.apply floats config event).Kept ∧
      (panel.Attached → (panel.apply floats config event).Attached) := by
  have hran := @Kept.folded _ config hkept floats event
  obtain ⟨hkept', hattached, -⟩ := evict_spec hran config.maxRuns
  unfold apply
  split
  · exact ⟨hkept, id⟩
  · exact ⟨⟨hkept.once, hkept.ordered, hkept.counted⟩, id⟩
  · exact ⟨hkept', fun h => hattached (h.folded floats event)⟩

end Panel

end Aiwatcher.ReadModel
