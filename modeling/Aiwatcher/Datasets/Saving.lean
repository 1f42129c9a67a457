import Aiwatcher.Datasets.Pipeline

/-!
# Aiwatcher.Datasets.Saving

Saving a pipeline: an immutable revision, addressed by the JSON of the request, and a head
that is moved to it (`save_pipeline`).

A revision that is filed once stays as it was filed (`version_savePipeline`).
-/

namespace Aiwatcher.Datasets

/-! ## The request as JSON -/

/-- A double, by its bits; what is no number is written as `null`. -/
def ofF64 (bits : UInt64) : Value :=
  if (bits >>> 52) &&& 0x7FF = 0x7FF then .null else .number (.float bits)

def BlockPosition.toValue (position : BlockPosition) : Value :=
  .object [("x", ofF64 position.x), ("y", ofF64 position.y)]

def BlockSpec.toValue : BlockSpec → Value
  | .source name given =>
    .object [("kind", .string "source"), ("dataset", .string name), ("arguments", ofTexts given)]
  | .transform script language =>
    .object ([("kind", .string "transform"), ("steps", .string script)] ++
      if language = .flow then [] else [("engine", .string language.asStr)])
  | .notebook name pinned given =>
    .object ([("kind", .string "notebook"), ("notebook", .string name)] ++
      optional "revision" .string pinned ++ [("params", ofMap given)])
  | .approval prompt role choices timeoutSeconds onTimeout =>
    .object ([("kind", .string "approval"), ("prompt", .string prompt),
        ("role", .string role)] ++
      optional "choices" ofStrings (if choices.isEmpty then none else some choices) ++
      optional "timeout_seconds" ofU64 timeoutSeconds ++
      [("on_timeout", onTimeoutValue onTimeout)])
  | .view name => .object ([("kind", .string "view")] ++ optional "dataset" .string name)

def PipelineBlock.toValue (block : PipelineBlock) : Value :=
  .object [("id", .string block.id), ("title", .string block.title),
    ("position", block.position.toValue), ("spec", block.spec.toValue)]

def PipelineEdge.toValue (edge : PipelineEdge) : Value :=
  .object [("from", .string edge.fromId), ("to", .string edge.toId)]

def SavePipelineRequest.toValue (request : SavePipelineRequest) : Value :=
  .object [("name", .string request.name), ("description", .string request.description),
    ("blocks", .array (request.blocks.map PipelineBlock.toValue)),
    ("edges", .array (request.edges.map PipelineEdge.toValue))]

/-- The digest of the authored fields. -/
def SavePipelineRequest.revision (addressing : Addressing) (request : SavePipelineRequest) :
    String :=
  addressing.digest (addressing.json request.toValue)

/-! ## The registry -/

/-- The saved pipelines: every revision under its pipeline's id, and the heads. -/
structure Registry where
  versions : BTreeMap String (BTreeMap String CurationPipeline)
  heads : BTreeMap String CurationPipeline

structure SavedPipeline where
  pipeline : CurationPipeline
  created : Bool

namespace Registry

def new : Registry := ⟨∅, ∅⟩

/-- The document under a pipeline's id and a revision. -/
def version (registry : Registry) (id revision : String) : Option CurationPipeline :=
  (registry.versions[id]?).bind fun (versions : BTreeMap String CurationPipeline) =>
    versions[revision]?

def putVersion (registry : Registry) (id revision : String) (pipeline : CurationPipeline) :
    Registry :=
  { registry with
    versions := registry.versions.insert id
      (((registry.versions[id]?).getD ∅).insert revision pipeline) }

/-- The pipeline a request asks for. -/
def asked (addressing : Addressing) (request : SavePipelineRequest) (now : OffsetDateTime) :
    CurationPipeline where
  name := request.name
  description := request.description
  blocks := request.blocks
  edges := request.edges
  revision := request.revision addressing
  savedAt := now

/-- `save_pipeline`. -/
def savePipeline (addressing : Addressing) (registry : Registry) (request : SavePipelineRequest)
    (now : OffsetDateTime) : Except RegistryError (SavedPipeline × Registry) :=
  match request.validate addressing with
  | .error refused => .error refused
  | .ok () =>
    let id := addressing.digest request.name
    let revision := request.revision addressing
    let existing := registry.version id revision
    let pipeline := existing.getD (asked addressing request now)
    let filed := if existing.isNone then registry.putVersion id revision pipeline else registry
    .ok (⟨pipeline, existing.isNone⟩,
      { filed with heads := filed.heads.insert (addressing.digest pipeline.name) pipeline })

/-- The registry after a number of saves; one that is refused leaves it as it is. -/
def saveAll (addressing : Addressing) (registry : Registry) :
    List (SavePipelineRequest × OffsetDateTime) → Registry
  | [] => registry
  | (request, now) :: rest =>
    match registry.savePipeline addressing request now with
    | .error _ => saveAll addressing registry rest
    | .ok (_, after) => saveAll addressing after rest

variable {addressing : Addressing} {registry after : Registry} {request : SavePipelineRequest}
  {now : OffsetDateTime} {saved : SavedPipeline}

theorem version_putVersion {id revision id' revision' : String} {pipeline : CurationPipeline} :
    (registry.putVersion id revision pipeline).version id' revision' =
      if id = id' ∧ revision = revision' then some pipeline
      else registry.version id' revision' := by
  unfold version putVersion
  rw [Std.ExtTreeMap.getElem?_insert]
  by_cases hid : id = id'
  · subst hid
    cases h : registry.versions[id]? <;>
      by_cases hrevision : revision = revision' <;>
        simp [Std.ExtTreeMap.getElem?_insert, hrevision]
  · simp [hid]

theorem version_heads (registry : Registry) (heads : BTreeMap String CurationPipeline)
    (id revision : String) :
    ({ registry with heads := heads } : Registry).version id revision =
      registry.version id revision := rfl

/-- What saving answers with is what is filed, and stays filed. -/
theorem version_savePipeline
    (h : registry.savePipeline addressing request now = .ok (saved, after)) :
    after.version (addressing.digest request.name) (request.revision addressing) =
        some saved.pipeline ∧
      saved.pipeline = (registry.version (addressing.digest request.name)
        (request.revision addressing)).getD (asked addressing request now) ∧
      ∀ id revision pipeline, registry.version id revision = some pipeline →
        after.version id revision = some pipeline := by
  unfold savePipeline at h
  split at h
  · cases h
  · dsimp only at h
    cases hexisting : registry.version (addressing.digest request.name)
        (request.revision addressing) with
    | none =>
      rw [hexisting] at h
      cases h
      refine ⟨?_, rfl, fun id revision pipeline hfiled => ?_⟩
      · simp [version_heads, version_putVersion]
      · simp only [Option.isNone_none, if_true, version_heads, version_putVersion]
        split
        · rename_i hsame
          rw [← hsame.1, ← hsame.2, hexisting] at hfiled
          cases hfiled
        · exact hfiled
    | some existing =>
      rw [hexisting] at h
      cases h
      exact ⟨hexisting, rfl, fun _ _ _ hfiled => hfiled⟩

theorem version_savePipeline_of_ne {id revision : String}
    (h : registry.savePipeline addressing request now = .ok (saved, after))
    (hne : request.revision addressing ≠ revision) :
    after.version id revision = registry.version id revision := by
  unfold savePipeline at h
  split at h
  · cases h
  · dsimp only at h
    cases h
    rw [version_heads]
    split
    · rw [version_putVersion, if_neg fun hsame => hne hsame.2]
    · rfl

theorem version_saveAll {requests : List (SavePipelineRequest × OffsetDateTime)}
    {id revision : String} {pipeline : CurationPipeline}
    (h : registry.version id revision = some pipeline) :
    (saveAll addressing registry requests).version id revision = some pipeline := by
  induction requests generalizing registry with
  | nil => exact h
  | cons entry rest ih =>
    obtain ⟨request, now⟩ := entry
    rw [saveAll]
    split
    · exact ih h
    · rename_i hsaved
      exact ih ((version_savePipeline hsaved).2.2 id revision pipeline h)

theorem saveAll_append (first rest : List (SavePipelineRequest × OffsetDateTime)) :
    saveAll addressing registry (first ++ rest) =
      saveAll addressing (saveAll addressing registry first) rest := by
  induction first generalizing registry with
  | nil => rfl
  | cons entry first ih =>
    obtain ⟨request, now⟩ := entry
    rw [List.cons_append, saveAll, saveAll]
    split <;> exact ih

/-- Every document says the revision it is filed under. -/
def Filed (registry : Registry) : Prop :=
  ∀ id revision pipeline, registry.version id revision = some pipeline →
    pipeline.revision = revision

theorem filed_new : Filed .new := by
  intro id revision pipeline h
  simp [version, new] at h

theorem Filed.savePipeline (hfiled : registry.Filed)
    (h : registry.savePipeline addressing request now = .ok (saved, after)) :
    after.Filed ∧ saved.pipeline.revision = request.revision addressing := by
  have hsaved : saved.pipeline.revision = request.revision addressing := by
    rw [(version_savePipeline h).2.1]
    cases hexisting : registry.version (addressing.digest request.name)
        (request.revision addressing) with
    | none => rfl
    | some existing => exact hfiled _ _ _ hexisting
  refine ⟨fun id revision pipeline hversion => ?_, hsaved⟩
  unfold Registry.savePipeline at h
  split at h
  · cases h
  · dsimp only at h
    cases h
    rw [version_heads] at hversion
    split at hversion
    · rw [version_putVersion] at hversion
      split at hversion
      · rename_i hsame
        cases hversion
        exact hsaved.trans hsame.2
      · exact hfiled _ _ _ hversion
    · exact hfiled _ _ _ hversion

theorem Filed.saveAll (hfiled : registry.Filed)
    (requests : List (SavePipelineRequest × OffsetDateTime)) :
    (saveAll addressing registry requests).Filed := by
  induction requests generalizing registry with
  | nil => exact hfiled
  | cons entry rest ih =>
    obtain ⟨request, now⟩ := entry
    rw [Registry.saveAll]
    split
    · exact ih hfiled
    · rename_i hsaved
      exact ih (hfiled.savePipeline hsaved).1

end Registry

end Aiwatcher.Datasets
