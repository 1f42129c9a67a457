import Aiwatcher.Compiling.Curation
import Mathlib.Data.List.Pairwise

/-!
# Aiwatcher.Compiling.WellFormed

A compiled plan is in order: `compiled_is_wellFormed` puts the steps behind the steps they
read and wait for, and every authored block in one of them.

`addsStep_of_compileBlock` is what one block adds to a draft, `Ordered` what a draft keeps.
-/

namespace Aiwatcher.Compiling

open Engine Datasets List

/-! ## One block -/

/-- The blocks a step came from. -/
def blocksOf (step : PlanStep) : List String := step.runtime.blocks.getD []

/-- A step for one block of its own: it reads the rows of the last step that has any, and
hands rows on itself or leaves the cursor where it is. -/
structure AddsStep (before after : Draft) (id : String) (step : PlanStep) : Prop where
  named : step.id = id
  drawn : step.runtime.blocks = some [id]
  reads : step.inputs = readsRows before.rowsFrom
  steps : after.steps = before.steps ++ [step]
  edges : after.edges = before.edges ++ before.previous.toList.map fun previous => ⟨previous, id⟩
  previous : after.previous = some id
  rows : after.rowsFrom = some id ∧ step.outputs = rowsOutput ∨ after.rowsFrom = before.rowsFrom

variable {addressing : Addressing} {pipeline : CurationPipeline} {options : CompileOptions}

variable {draft : Draft} {ids : List String} {step : PlanStep}

/-- **What a block behind the query compiles to**, where there is no complaint about it. -/
theorem addsStep_of_compileBlock {block : PipelineBlock}
    (h : (compileBlock pipeline options draft block).problems = []) :
    draft.problems = [] ∧
      ∃ step, AddsStep draft (compileBlock pipeline options draft block) block.id step := by
  unfold compileBlock at h ⊢
  cases hspec : block.spec with
  | source => simp [hspec, Draft.tell, Draft.link] at h
  | transform => simp [hspec, Draft.tell, Draft.link] at h
  | notebook notebook revision params =>
    simp only [hspec] at h ⊢
    cases hpinned : revision.filter fun revision => !revision.isEmpty with
    | none => simp [hpinned, Draft.tell] at h
    | some pinned =>
      simp only [hpinned] at h ⊢
      exact ⟨h, _, rfl, rfl, rfl, rfl, rfl, rfl, .inl ⟨rfl, rfl⟩⟩
  | approval =>
    simp only [hspec] at h ⊢
    exact ⟨h, _, rfl, rfl, rfl, rfl, rfl, rfl, .inr rfl⟩
  | view dataset =>
    simp only [hspec] at h ⊢
    cases hnamed : dataset.filter fun name => !name.isEmpty with
    | none => simp [hnamed, Draft.tell] at h
    | some named =>
      simp only [hnamed] at h ⊢
      exact ⟨h, _, rfl, rfl, rfl, rfl, rfl, rfl, .inr rfl⟩

/-! ## A draft in order -/

/-- The inputs of each step are outputs of steps in front of it. -/
def Bound (steps : List PlanStep) : Prop :=
  ∀ front step back, steps = front ++ step :: back → ∀ binding ∈ step.inputs,
    ∃ earlier ∈ front, ∃ output ∈ earlier.outputs, binding = .step earlier.id output.name

theorem Bound.append {steps : List PlanStep} (h : Bound steps)
    (hstep : ∀ binding ∈ step.inputs,
      ∃ earlier ∈ steps, ∃ output ∈ earlier.outputs, binding = .step earlier.id output.name) :
    Bound (steps ++ [step]) := by
  intro front found back hsplit
  cases back using List.reverseRecOn with
  | nil =>
    obtain ⟨rfl, hlast⟩ := append_inj' hsplit rfl
    rwa [← singleton_inj.mp hlast]
  | append_singleton back last =>
    rw [← cons_append, ← append_assoc] at hsplit
    exact h front found back (append_inj' hsplit rfl).1

/-- A draft that covers some blocks: its steps are named by them, follow the edges and read
from one another. -/
structure Ordered (draft : Draft) (ids : List String) : Prop where
  covers : draft.steps.flatMap blocksOf = ids
  drawn : ∀ step ∈ draft.steps, step.id ∈ blocksOf step ∧ step.runtime.blocks.isSome
  last : ∀ id, draft.previous = some id → id ∈ draft.steps.map (·.id)
  edges : ∀ edge ∈ draft.edges,
    List.Sublist [edge.fromId, edge.toId] (draft.steps.map (·.id))
  rows : ∀ id, draft.rowsFrom = some id →
    ∃ step ∈ draft.steps, step.id = id ∧ step.outputs = rowsOutput
  bound : Bound draft.steps

theorem Ordered.addsStep {draft after : Draft} (h : Ordered draft ids) {id : String}
    (hadds : AddsStep draft after id step) : Ordered after (ids ++ [id]) := by
  have hblocks : blocksOf step = [id] := by simp [blocksOf, hadds.drawn]
  constructor
  · simp [hadds.steps, h.covers, hblocks]
  · intro met hmet
    rw [hadds.steps, mem_append, mem_singleton] at hmet
    cases hmet with
    | inl hmet => exact h.drawn met hmet
    | inr hmet => subst hmet; simp [hblocks, hadds.named, hadds.drawn]
  · intro last hlast
    rw [hadds.previous, Option.some.injEq] at hlast
    simp [hadds.steps, hadds.named, hlast]
  · intro edge hedge
    rw [hadds.edges, mem_append, mem_map] at hedge
    rw [hadds.steps, map_append]
    cases hedge with
    | inl hedge => exact (h.edges edge hedge).trans (sublist_append_left _ _)
    | inr hedge =>
      obtain ⟨previous, hprevious, rfl⟩ := hedge
      have hmem := h.last previous (Option.mem_toList.mp hprevious)
      have hstep : [id] = [step].map (·.id) := by simp [hadds.named]
      rw [← hstep]
      exact (singleton_sublist.mpr hmem).append (List.Sublist.refl _)
  · intro rows hrows
    rw [hadds.steps]
    cases hadds.rows with
    | inl hnew =>
      rw [hnew.1, Option.some.injEq] at hrows
      exact ⟨step, by simp, hadds.named.trans hrows, hnew.2⟩
    | inr hkept =>
      obtain ⟨held, hheld, hrest⟩ := h.rows rows (hkept ▸ hrows)
      exact ⟨held, mem_append_left _ hheld, hrest⟩
  · rw [hadds.steps]
    refine h.bound.append fun binding hbinding => ?_
    rw [hadds.reads, readsRows, mem_map] at hbinding
    obtain ⟨rows, hrows, rfl⟩ := hbinding
    obtain ⟨earlier, hearlier, hid, houtputs⟩ := h.rows rows (Option.mem_toList.mp hrows)
    exact ⟨earlier, hearlier, ⟨"rows", .rows, none⟩, by simp [houtputs, rowsOutput], by rw [hid]⟩

theorem Ordered.blocks (h : draft.problems = [] → Ordered draft ids) {blocks : List PipelineBlock}
    (hproblems : (blocks.foldl (compileBlock pipeline options) draft).problems = []) :
    Ordered (blocks.foldl (compileBlock pipeline options) draft) (ids ++ blocks.map (·.id)) := by
  induction blocks generalizing draft ids with
  | nil => simpa using h hproblems
  | cons block blocks ih =>
    have hnext : (compileBlock pipeline options draft block).problems = [] →
        Ordered (compileBlock pipeline options draft block) (ids ++ [block.id]) := fun hclean => by
      obtain ⟨hbefore, step, hadds⟩ := addsStep_of_compileBlock hclean
      exact (h hbefore).addsStep hadds
    simpa using ih hnext hproblems

/-! ## The query -/

theorem blocks_of_queryRuntime {source : PipelineBlock} {blocks : List PipelineBlock}
    {deployed : QueryEngine} {spec : String → QueryStepSpec} {runtime : RuntimeBinding}
    (h : queryRuntime addressing source blocks deployed spec = .ok runtime) :
    ∃ script, runtime.blocks = some (spec script).blocks := by
  unfold queryRuntime at h
  dsimp only at h
  split at h
  · split at h
    · cases h
    · cases deployed with
      | flow => cases h; exact ⟨_, rfl⟩
      | dataFusion | duckDb =>
        dsimp only at h
        split at h
        · cases h; exact ⟨_, rfl⟩
        · cases h
  · cases deployed with
    | flow => cases h; exact ⟨_, rfl⟩
    | dataFusion | duckDb =>
      dsimp only at h
      split at h
      · cases h; exact ⟨_, rfl⟩
      · cases h

theorem ordered_of_compileQuery {blocks : List PipelineBlock}
    (h : compileQuery addressing options blocks = .ok draft) (hproblems : draft.problems = []) :
    Ordered draft (blocks.map (·.id)) := by
  cases blocks with
  | nil =>
    cases h
    constructor <;> simp [Bound]
  | cons source rest =>
    unfold compileQuery at h
    cases hspec : source.spec with
    | source dataset arguments =>
      simp only [hspec] at h
      cases hruntime : queryRuntime addressing source (source :: rest) options.engine
          (querySpec options (source :: rest) dataset arguments) with
      | error problem =>
        rw [hruntime] at h
        cases h
        simp [Draft.tell] at hproblems
      | ok runtime =>
        rw [hruntime] at h
        cases h
        obtain ⟨script, hblocks⟩ := blocks_of_queryRuntime hruntime
        constructor
        · simp [Draft.addStep, blocksOf, queryStep, hblocks, querySpec]
        · simp [Draft.addStep, blocksOf, queryStep, hblocks, querySpec]
        · simp [Draft.addStep, queryStep]
        · simp [Draft.addStep]
        · simp [Draft.addStep, queryStep]
        · intro front step back hsplit binding hbinding
          have hmem : step ∈ [queryStep options source runtime] := by
            have hsteps : [queryStep options source runtime] = front ++ step :: back := hsplit
            simp [hsteps]
          simp [mem_singleton.mp hmem, queryStep] at hbinding
    | transform => simp [hspec] at h
    | notebook => simp [hspec] at h
    | approval => simp [hspec] at h
    | view => simp [hspec] at h

/-! ## The plan -/

theorem ordered_of_compileCuration {plan : ExecutionPlan}
    (h : compileCuration addressing pipeline options = .ok plan) :
    ∃ chain draft, orderOf addressing pipeline.blocks pipeline.edges = .ok chain ∧
      Ordered draft (chain.map (·.id)) ∧
      plan = .seal addressing .curationPipeline pipeline.name pipeline.revision draft.steps
        draft.edges := by
  unfold compileCuration at h
  split at h
  · cases h
  · rename_i chain hchain
    dsimp only at h
    split at h
    · cases h
    · rename_i query hquery
      generalize hdraft : List.foldl (compileBlock pipeline options) query _ = draft at h
      generalize hnone :
        (ite ((draft.steps.isEmpty && draft.problems.isEmpty) = true) _ _ : List String) = none at h
      split at h
      · rename_i hclean
        cases h
        have hproblems : draft.problems = [] := by simp_all
        rw [← hdraft] at hproblems
        have hordered := Ordered.blocks (ordered_of_compileQuery hquery) hproblems
        have hsplit : chain.takeWhile isQueryBlock ++
            chain.drop (chain.takeWhile isQueryBlock).length = chain :=
          prefix_iff_eq_append.mp ( takeWhile_prefix _)
        rw [hdraft, ← map_append, hsplit] at hordered
        exact ⟨chain, draft, hchain, hordered, rfl⟩
      · cases h

/-- A plan in order: nothing waits in a circle, steps have names of their own, every block
is in one step and every input is an output of a step in front. -/
structure WellFormed (blocks : List PipelineBlock) (plan : ExecutionPlan) : Prop where
  acyclic : plan.isAcyclic = true
  unique : plan.ids.Nodup
  covered : (plan.blocksByStep.flatMap (·.blocks)).Perm (blocks.map (·.id))
  once : (plan.blocksByStep.flatMap (·.blocks)).Nodup
  inverse : ∀ block step, plan.stepForBlock block = some step ↔
    step ∈ plan.steps ∧ ∃ entry ∈ plan.blocksByStep, entry.stepId = step.id ∧ block ∈ entry.blocks
  bindings : Bound plan.steps

theorem flatMap_blocksByStep (plan : ExecutionPlan) :
    plan.blocksByStep.flatMap (·.blocks) = plan.steps.flatMap blocksOf := by
  rw [ExecutionPlan.blocksByStep, flatMap_map]
  rfl

theorem step_unique {steps : List PlanStep} (h : (steps.flatMap blocksOf).Nodup)
    {a b : PlanStep} (ha : a ∈ steps) (hb : b ∈ steps) {block : String}
    (hina : block ∈ blocksOf a) (hinb : block ∈ blocksOf b) : a = b := by
  by_contra hne
  have hsymm : Std.Symm (Function.onFun List.Disjoint blocksOf) := ⟨fun _ _ h => h.symm⟩
  have hdisjoint := (nodup_flatMap.mp h).2.forall ha hb hne
  exact hdisjoint hina hinb

theorem Ordered.nodup_ids (h : Ordered draft ids) (hids : ids.Nodup) :
    (draft.steps.map (·.id)).Nodup := by
  have hcovers : (draft.steps.flatMap blocksOf).Nodup := h.covers ▸ hids
  rw [nodup_flatMap] at hcovers
  refine pairwise_map.mpr (hcovers.2.imp_of_mem fun {a b} ha hb hdisjoint hsame => ?_)
  exact hdisjoint (h.drawn a ha).1 (hsame ▸ (h.drawn b hb).1)

theorem stepForBlock_iff {plan : ExecutionPlan} (hnodup : (plan.steps.flatMap blocksOf).Nodup)
    (hdrawn : ∀ step ∈ plan.steps, step.runtime.blocks.isSome) {block : String} :
    plan.stepForBlock block = some step ↔ step ∈ plan.steps ∧ block ∈ blocksOf step := by
  have hcovers : ∀ met ∈ plan.steps, (met.covers block = true ↔ block ∈ blocksOf met) :=
    fun met hmet => by
      obtain ⟨blocks, hblocks⟩ := Option.isSome_iff_exists.mp (hdrawn met hmet)
      simp [PlanStep.covers, hblocks, blocksOf]
  constructor
  · intro h
    have hmem := mem_of_find?_eq_some h
    exact ⟨hmem, (hcovers step hmem).mp (by simpa using find?_some h)⟩
  · intro h
    cases hfound : plan.stepForBlock block with
    | none =>
      have hnone := find?_eq_none.mp hfound step h.1
      exact absurd ((hcovers step h.1).mpr h.2) hnone
    | some found =>
      have hmem := mem_of_find?_eq_some hfound
      have hin := (hcovers found hmem).mp (by simpa using find?_some hfound)
      rw [step_unique hnodup hmem h.1 hin h.2]

/-- **A compiled plan is in order**, whatever chain it was compiled from. -/
theorem compiled_is_wellFormed (addressing : Addressing) (pipeline : CurationPipeline)
    (options : CompileOptions) (plan : ExecutionPlan)
    (h : compileCuration addressing pipeline options = .ok plan) :
    WellFormed pipeline.blocks plan := by
  obtain ⟨chain, draft, hchain, hordered, rfl⟩ := ordered_of_compileCuration h
  obtain ⟨hperm, hnodup⟩ := accepted_of_orderOf hchain
  have hids := hordered.nodup_ids hnodup
  have hcovers : (draft.steps.flatMap blocksOf).Nodup := hordered.covers ▸ hnodup
  constructor
  · refine Library.Peel.peels_of_founded le_rfl (Library.Peel.founded_of_ordered hids ?_)
    intro step _ parent hparent
    exact hordered.edges _ (mem_edges_seal.mp (ExecutionPlan.mem_parentsOf.mp hparent))
  · exact hids
  · rw [flatMap_blocksByStep, steps_seal, hordered.covers]
    exact hperm.map _
  · rw [flatMap_blocksByStep]
    exact hcovers
  · intro block step
    rw [stepForBlock_iff hcovers fun step hstep => (hordered.drawn step hstep).2]
    refine and_congr_right fun hstep => ?_
    constructor
    · intro hin
      exact ⟨⟨step.id, step.runtime.kind, blocksOf step⟩, List.mem_map_of_mem hstep, rfl, hin⟩
    · intro hentry
      obtain ⟨entry, hentry, hid, hin⟩ := hentry
      obtain ⟨found, hfound, rfl⟩ := List.mem_map.mp hentry
      rwa [← List.inj_on_of_nodup_map hids hfound hstep hid]
  · exact hordered.bound

/-- No double is written, and every text is its own digest. -/
def bareAddressing : Addressing := ⟨fun _ => [], fun text => text⟩

/-- A gate between a query of two blocks and its publication. -/
def gatedCuration : CurationPipeline where
  name := "pii"
  description := ""
  blocks := [⟨"read", "", ⟨0, 0⟩, .source "hub_rows" ∅⟩,
    ⟨"clean", "", ⟨0, 0⟩, .transform "->limit(100)" .flow⟩,
    ⟨"sign-off", "", ⟨0, 0⟩, .approval "Publish these rows?" "editor" [] none .fail⟩,
    ⟨"publish", "", ⟨0, 0⟩, .view (some "clean")⟩]
  edges := [⟨"sign-off", "publish"⟩, ⟨"read", "clean"⟩, ⟨"clean", "sign-off"⟩]
  revision := "first"
  savedAt := OffsetDateTime.unixEpoch

theorem gatedCuration_is_wellFormed :
    ∃ plan, compileCuration bareAddressing gatedCuration ⟨none, .flow, none⟩ = .ok plan ∧
      plan.ids = ["read", "sign-off", "publish"] ∧ WellFormed gatedCuration.blocks plan := by
  have hids : (compileCuration bareAddressing gatedCuration ⟨none, .flow, none⟩).map
      ExecutionPlan.ids = .ok ["read", "sign-off", "publish"] := by decide +kernel
  cases hplan : compileCuration bareAddressing gatedCuration ⟨none, .flow, none⟩ with
  | error problems => rw [hplan] at hids; cases hids
  | ok plan =>
    rw [hplan] at hids
    exact ⟨plan, rfl, by simpa [Except.map] using hids,
      compiled_is_wellFormed bareAddressing gatedCuration _ plan hplan⟩

end Aiwatcher.Compiling
