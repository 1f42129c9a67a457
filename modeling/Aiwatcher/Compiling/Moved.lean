import Aiwatcher.Compiling.WellFormed
import Aiwatcher.Datasets.Saving

/-!
# Aiwatcher.Compiling.Moved

Whether the drawing of a pipeline reaches the plan it compiles to.

The plan names the saved revision it was compiled from, and the revision is the digest of the
whole request, positions included: two requests that differ in the layout alone have one plan
exactly if the layouts are written as one JSON (`planId_eq_iff_drawn_alike`).
-/

namespace Aiwatcher.Compiling

open Datasets Datasets.Registry List
open Engine (ExecutionPlan PlanEdge PlanStep)

/-! ## The same pipeline, drawn elsewhere -/

/-- The block at another place of the canvas. -/
def drawnAt (position : BlockPosition) (block : PipelineBlock) : PipelineBlock :=
  { block with position := position }

def origin : BlockPosition := ⟨0, 0⟩

/-- Two requests that differ in the positions of their blocks alone. -/
structure Moved (a b : SavePipelineRequest) : Prop where
  name : a.name = b.name
  description : a.description = b.description
  blocks : a.blocks.map (drawnAt origin) = b.blocks.map (drawnAt origin)
  edges : a.edges = b.edges

/-- The layout, as it is written. -/
def layout (request : SavePipelineRequest) : List Value :=
  request.blocks.map fun block => block.position.toValue

theorem toValue_eq_of_drawnAt {x y : PipelineBlock} (hdrawn : drawnAt origin x = drawnAt origin y)
    (hposition : x.position.toValue = y.position.toValue) : x.toValue = y.toValue := by
  obtain ⟨id, title, position, spec⟩ := x
  obtain ⟨id', title', position', spec'⟩ := y
  simp only [drawnAt, PipelineBlock.mk.injEq, true_and] at hdrawn
  obtain ⟨rfl, rfl, rfl⟩ := hdrawn
  simp_all [PipelineBlock.toValue]

theorem map_toValue_of_drawnAt {xs ys : List PipelineBlock}
    (hdrawn : xs.map (drawnAt origin) = ys.map (drawnAt origin))
    (hlayout : xs.map (fun block => block.position.toValue) =
      ys.map fun block => block.position.toValue) :
    xs.map PipelineBlock.toValue = ys.map PipelineBlock.toValue := by
  induction xs generalizing ys with
  | nil =>
    cases ys with
    | nil => rfl
    | cons y ys => cases hdrawn
  | cons x xs ih =>
    cases ys with
    | nil => cases hdrawn
    | cons y ys =>
      simp only [map_cons, List.cons.injEq] at hdrawn hlayout ⊢
      exact ⟨toValue_eq_of_drawnAt hdrawn.1 hlayout.1, ih hdrawn.2 hlayout.2⟩

theorem Moved.toValue {a b : SavePipelineRequest} (h : Moved a b) (hlayout : layout a = layout b) :
    a.toValue = b.toValue := by
  simp only [SavePipelineRequest.toValue, h.name, h.description, h.edges,
    map_toValue_of_drawnAt h.blocks hlayout]

theorem layout_of_toValue {a b : SavePipelineRequest} (h : a.toValue = b.toValue) :
    layout a = layout b := by
  have hblocks : a.blocks.map PipelineBlock.toValue = b.blocks.map PipelineBlock.toValue := by
    simp only [SavePipelineRequest.toValue, Value.object.injEq, List.cons.injEq,
      Prod.mk.injEq, Value.array.injEq, true_and, and_true] at h
    exact h.2.2.1
  have hread : ∀ blocks : List PipelineBlock,
      blocks.map (fun block => some block.position.toValue) =
        (blocks.map PipelineBlock.toValue).map fun value => value.get "position" := by
    intro blocks
    simp [PipelineBlock.toValue, Value.get, Function.comp_def]
  have hsome : (layout a).map some = (layout b).map some := by
    simpa [layout, Function.comp_def, hread] using
      congrArg (List.map fun value : Value => value.get "position") hblocks
  exact (map_injective_iff.mpr (Option.some_injective _)) hsome

theorem layout_of_revision {addressing : Addressing} (h : addressing.Faithful)
    {a b : SavePipelineRequest} (hrevision : a.revision addressing = b.revision addressing) :
    layout a = layout b :=
  layout_of_toValue (h.json (h.digest hrevision))

/-! ## Saved, then compiled -/

/-- What a save answers with is compiled. -/
def saveAndCompile (addressing : Addressing) (registry : Registry) (request : SavePipelineRequest)
    (now : OffsetDateTime) (options : CompileOptions) : Option ExecutionPlan :=
  match registry.savePipeline addressing request now with
  | .error _ => none
  | .ok (saved, _) => (compileCuration addressing saved.pipeline options).toOption

variable {addressing : Addressing} {registry : Registry} {a b : SavePipelineRequest}
  {now later : OffsetDateTime} {options : CompileOptions} {plan first second : ExecutionPlan}

theorem exists_of_saveAndCompile
    (h : saveAndCompile addressing registry a now options = some plan) :
    ∃ saved after, registry.savePipeline addressing a now = .ok (saved, after) ∧
      compileCuration addressing saved.pipeline options = .ok plan := by
  unfold saveAndCompile at h
  split at h
  · cases h
  · rename_i saved after hsaved
    cases hcompiled : compileCuration addressing saved.pipeline options with
    | error problems => rw [hcompiled] at h; cases h
    | ok compiled =>
      rw [hcompiled] at h
      cases h
      exact ⟨saved, after, hsaved, hcompiled⟩

theorem saveAndCompile_of_unfiled (hvalid : a.validate addressing = .ok ())
    (hunfiled : registry.version (addressing.digest a.name) (a.revision addressing) = none) :
    saveAndCompile addressing registry a now options =
      (compileCuration addressing (asked addressing a now) options).toOption := by
  simp only [saveAndCompile, savePipeline, hvalid, hunfiled, Option.getD_none]

theorem layout_of_planId (h : addressing.Faithful) {before after : Registry}
    (hbefore : before.Filed) (hafter : after.Filed)
    (hfirst : saveAndCompile addressing before a now options = some first)
    (hsecond : saveAndCompile addressing after b later options = some second)
    (hid : first.planId = second.planId) : layout a = layout b := by
  obtain ⟨savedA, afterA, hsavedA, hplanA⟩ := exists_of_saveAndCompile hfirst
  obtain ⟨savedB, afterB, hsavedB, hplanB⟩ := exists_of_saveAndCompile hsecond
  obtain ⟨chainA, draftA, -, -, rfl⟩ := ordered_of_compileCuration hplanA
  obtain ⟨chainB, draftB, -, -, rfl⟩ := ordered_of_compileCuration hplanB
  have hrevision : a.revision addressing = b.revision addressing := by
    rw [← (hbefore.savePipeline hsavedA).2, ← (hafter.savePipeline hsavedB).2]
    exact Engine.revision_of_planId h hid
  exact layout_of_revision h hrevision

/-- Saving each of two pipelines that differ in their layout alone, in one registry and with
whatever is saved between, gives plans of one id exactly if the layouts are written alike. -/
theorem planId_eq_iff_drawn_alike (addressing : Addressing) (h : addressing.Faithful)
    (options : CompileOptions) (earlier between : List (SavePipelineRequest × OffsetDateTime))
    (a b : SavePipelineRequest) (moved : Moved a b) (now later : OffsetDateTime)
    (first second : ExecutionPlan)
    (hfirst : saveAndCompile addressing (saveAll addressing .new earlier) a now options =
      some first)
    (hsecond : saveAndCompile addressing
      (saveAll addressing .new (earlier ++ (a, now) :: between)) b later options = some second) :
    first.planId = second.planId ↔ layout a = layout b := by
  constructor
  · exact layout_of_planId h (filed_new.saveAll _) (filed_new.saveAll _) hfirst hsecond
  · intro hlayout
    -- the second save asks for the document the first one filed
    obtain ⟨savedA, afterA, hsavedA, hplanA⟩ := exists_of_saveAndCompile hfirst
    obtain ⟨savedB, afterB, hsavedB, hplanB⟩ := exists_of_saveAndCompile hsecond
    have hrevision : a.revision addressing = b.revision addressing := by
      rw [SavePipelineRequest.revision, SavePipelineRequest.revision, moved.toValue hlayout]
    have hfiled : (saveAll addressing .new (earlier ++ (a, now) :: between)).version
        (addressing.digest b.name) (b.revision addressing) = some savedA.pipeline := by
      rw [← moved.name, ← hrevision, saveAll_append, saveAll, hsavedA]
      exact version_saveAll (version_savePipeline hsavedA).1
    have hsame : savedB.pipeline = savedA.pipeline := by
      rw [(version_savePipeline hsavedB).2.1, hfiled, Option.getD_some]
    rw [hsame, hplanA] at hplanB
    cases hplanB
    rfl

/-! ## A block is moved to the right -/

/-- Digits for the doubles `0.0` and `400.0`; any other is written by its bits. -/
def drawnDoubles : Doubles := fun bits =>
  if bits = 0 then "0.0".toList
  else if bits = 0x4079000000000000 then "400.0".toList
  else bits.toNat.repr.toList ++ ['e', '0']

theorem drawnDoubles_lawful : drawnDoubles.Lawful := by
  have hpoint : ∀ (text : List Char) (n : Nat), '.' ∈ text →
      text ≠ n.repr.toList ++ ['e', '0'] := by
    intro text n hmem heq
    subst heq
    cases mem_append.mp hmem with
    | inl h => exact absurd (isDigit_of_mem_repr h) (by decide)
    | inr h => exact absurd h (by decide)
  have hzero : '.' ∈ "0.0".toList := by decide
  have hfar : '.' ∈ "400.0".toList := by decide
  constructor
  · intro m n hmn
    unfold drawnDoubles at hmn
    by_cases hm : m = 0 <;> by_cases hn : n = 0 <;>
      by_cases hm' : m = 0x4079000000000000 <;> by_cases hn' : n = 0x4079000000000000 <;>
        simp only [hm, hn, hm', hn', if_true, if_false] at hmn ⊢
    all_goals first
      | exact absurd hmn (by decide)
      | exact absurd hmn (hpoint _ _ hzero)
      | exact absurd hmn (hpoint _ _ hfar)
      | exact absurd hmn.symm (hpoint _ _ hzero)
      | exact absurd hmn.symm (hpoint _ _ hfar)
      | exact UInt64.toNat_inj.mp (repr_toList_inj (append_cancel_right hmn))
  · intro bits
    have hdigits : bits.toNat.repr.toList.all isNumeric = true := by
      rw [all_eq_true]
      intro c hc
      simp [isNumeric, isDigit_of_mem_repr hc]
    unfold drawnDoubles
    split
    · decide
    · split
      · decide
      · rw [all_append, hdigits]
        decide
  · intro bits
    unfold drawnDoubles
    split
    · exact ⟨'0', _, rfl, .inl (by decide)⟩
    · split
      · exact ⟨'4', _, rfl, .inl (by decide)⟩
      · obtain ⟨c, rest, hlead, hdigit⟩ := exists_lead_repr bits.toNat
        exact ⟨c, rest ++ ['e', '0'], by rw [hlead, cons_append], .inl hdigit⟩
  · intro bits
    unfold drawnDoubles
    split
    · exact .inl hzero
    · split
      · exact .inl hfar
      · exact .inr (by simp)

def drawnAddressing : Addressing := ⟨drawnDoubles, fun text => text⟩

/-- A query, drawn at some place, and its publication. -/
def published (x : UInt64) : SavePipelineRequest where
  name := "rows"
  description := ""
  blocks := [⟨"read", "", ⟨x, 0⟩, .source "hub_rows" ∅⟩,
    ⟨"publish", "", ⟨0, 0⟩, .view (some "clean")⟩]
  edges := [⟨"read", "publish"⟩]

def managed : CompileOptions := ⟨none, .flow, none⟩

theorem published_moved (x y : UInt64) : Moved (published x) (published y) :=
  ⟨rfl, rfl, rfl, rfl⟩

theorem drawnAddressing_faithful : drawnAddressing.Faithful :=
  ⟨drawnDoubles_lawful, fun _ _ hsame => hsame⟩

/-- The plan of the query drawn at `x`, saved after some others. -/
def planOfPublished (x : UInt64) (earlier : List (SavePipelineRequest × OffsetDateTime)) :
    Option ExecutionPlan :=
  saveAndCompile drawnAddressing (saveAll drawnAddressing .new earlier) (published x)
    OffsetDateTime.unixEpoch managed

theorem layout_published_ne : layout (published 0) ≠ layout (published 0x4079000000000000) := by
  have hnumbers : ofF64 0 ≠ ofF64 0x4079000000000000 := by
    rw [ofF64, ofF64, if_neg (by decide), if_neg (by decide)]
    simp
  intro hlayout
  simp only [layout, published, map_cons, BlockPosition.toValue, List.cons.injEq,
    Value.object.injEq, Prod.mk.injEq, true_and] at hlayout
  exact hnumbers hlayout.1.1

theorem exists_planOfPublished :
    ∃ first second, planOfPublished 0 [] = some first ∧
      planOfPublished 0x4079000000000000 [(published 0, OffsetDateTime.unixEpoch)] =
        some second := by
  have hvalid : (published 0).validate drawnAddressing = .ok () ∧
      (published 0x4079000000000000).validate drawnAddressing = .ok () := by
    decide +kernel
  have hcompiled : (compileCuration drawnAddressing
        (asked drawnAddressing (published 0) OffsetDateTime.unixEpoch) managed).toOption.isSome ∧
      (compileCuration drawnAddressing
        (asked drawnAddressing (published 0x4079000000000000) OffsetDateTime.unixEpoch)
          managed).toOption.isSome := by
    decide +kernel
  have hrevision : (published 0).revision drawnAddressing ≠
      (published 0x4079000000000000).revision drawnAddressing := fun hsame =>
    layout_published_ne (layout_of_revision drawnAddressing_faithful hsame)
  have hnew : ∀ id revision, Registry.new.version id revision = none := fun id revision => by
    simp [Registry.version, Registry.new]
  obtain ⟨first, hfirst⟩ := Option.isSome_iff_exists.mp hcompiled.1
  obtain ⟨second, hsecond⟩ := Option.isSome_iff_exists.mp hcompiled.2
  refine ⟨first, second, ?_, ?_⟩
  · rw [planOfPublished, saveAll, saveAndCompile_of_unfiled hvalid.1 (hnew _ _), hfirst]
  · rw [planOfPublished, saveAndCompile_of_unfiled hvalid.2, hsecond]
    rw [saveAll]
    split
    · exact hnew _ _
    · rename_i hsaved
      rw [saveAll, version_savePipeline_of_ne hsaved hrevision, hnew]

/-- The query is drawn at 400.0 instead of 0.0, and the plan has another id. -/
theorem moved_changes_the_plan :
    Moved (published 0) (published 0x4079000000000000) ∧
      ∃ first second, planOfPublished 0 [] = some first ∧
        planOfPublished 0x4079000000000000 [(published 0, OffsetDateTime.unixEpoch)] =
          some second ∧
        first.planId ≠ second.planId := by
  obtain ⟨first, second, hfirst, hsecond⟩ := exists_planOfPublished
  exact ⟨published_moved _ _, first, second, hfirst, hsecond, fun hid =>
    layout_published_ne (layout_of_planId drawnAddressing_faithful (filed_new.saveAll _)
      (filed_new.saveAll _) hfirst hsecond hid)⟩

theorem published_is_drawn :
    ∃ first second, planOfPublished 0 [] = some first ∧
      planOfPublished 0x4079000000000000 [(published 0, OffsetDateTime.unixEpoch)] =
        some second ∧
      (first.planId = second.planId ↔
        layout (published 0) = layout (published 0x4079000000000000)) := by
  obtain ⟨first, second, hfirst, hsecond⟩ := exists_planOfPublished
  exact ⟨first, second, hfirst, hsecond, planId_eq_iff_drawn_alike drawnAddressing
    drawnAddressing_faithful managed [] [] (published 0) (published 0x4079000000000000)
    (published_moved _ _) OffsetDateTime.unixEpoch OffsetDateTime.unixEpoch first second hfirst
    hsecond⟩

/-! ## Saving again -/

/-- **Filed once**: a pipeline that is saved again under its name is answered by the document that
was filed first, whatever else was saved before and in between. -/
theorem saved_again_is_filed_once (addressing : Addressing)
    (earlier between : List (SavePipelineRequest × OffsetDateTime))
    {request again : SavePipelineRequest} {now later : OffsetDateTime}
    {saved saved' : SavedPipeline} {after after' : Registry}
    (hsaved : (saveAll addressing .new earlier).savePipeline addressing request now =
      .ok (saved, after))
    (hagain : (saveAll addressing after between).savePipeline addressing again later =
      .ok (saved', after'))
    (hname : again.name = request.name)
    (hrevision : again.revision addressing = request.revision addressing) :
    saved' = ⟨saved.pipeline, false⟩ ∧ saved.pipeline.revision = request.revision addressing := by
  refine ⟨?_, ((filed_new.saveAll earlier).savePipeline hsaved).2⟩
  have hfiled : (saveAll addressing after between).version (addressing.digest again.name)
      (again.revision addressing) = some saved.pipeline := by
    rw [hname, hrevision]
    exact version_saveAll (version_savePipeline hsaved).1
  unfold Registry.savePipeline at hagain
  split at hagain
  · cases hagain
  · cases hagain
    rw [hfiled]
    rfl

theorem published_again_is_filed_once : ∃ saved after saved' after',
    Registry.new.savePipeline drawnAddressing (published 0) 0 = .ok (saved, after) ∧
      after.savePipeline drawnAddressing (published 0) 1 = .ok (saved', after') ∧
      saved' = ⟨saved.pipeline, false⟩ := by
  have hvalid : (published 0).validate drawnAddressing = .ok () := by decide +kernel
  have hsaves : ∀ registry now, ∃ out,
      Registry.savePipeline drawnAddressing registry (published 0) now = .ok out := by
    intro registry now
    unfold Registry.savePipeline
    rw [hvalid]
    exact ⟨_, rfl⟩
  obtain ⟨⟨saved, after⟩, hfirst⟩ := hsaves .new 0
  obtain ⟨⟨saved', after'⟩, hsecond⟩ := hsaves after 1
  exact ⟨saved, after, saved', after', hfirst, hsecond,
    (saved_again_is_filed_once drawnAddressing [] [] hfirst hsecond rfl rfl).1⟩

end Aiwatcher.Compiling
