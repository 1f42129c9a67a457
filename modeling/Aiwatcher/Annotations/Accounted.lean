import Aiwatcher.Annotations.Export
import Aiwatcher.Compiling.Moved
import Aiwatcher.Library.Joins
import Mathlib.Data.List.Perm.Basic

/-!
# Aiwatcher.Annotations.Accounted

What an export accounts for: every image is a sample or is left out with a reason, the counts add
up, and a family is on one side.  Its digest depends neither on how the store lists the images nor
on how the request lists its classes; it depends on how the request lists its views.
-/

namespace Aiwatcher.Annotations

open Library List Std Counts

/-! ## The loop -/

namespace Terms

variable {terms : Terms} {images : List (ImageHead × Option AnnotationRevision)}

/-- The side of a family. -/
def side (terms : Terms) (groupId : String) : Split :=
  resolveSplit terms.rendering.addressing terms.project groupId terms.salt terms.ratios

/-- The samples of some images, each with the classes drawn on it. -/
def placed (terms : Terms) (images : List (ImageHead × Option AnnotationRevision)) :
    List (ExportSample × List String) :=
  images.filterMap fun image => (terms.place image.1 image.2).toOption

/-- What is left out, of one image. -/
def leaves (terms : Terms) (image : ImageHead × Option AnnotationRevision) :
    Option ExportExclusion :=
  match terms.place image.1 image.2 with
  | .error (reason, detail) =>
    some ⟨image.1.image.imageId, image.1.image.groupId, reason, detail⟩
  | .ok _ => none

def leftOut (terms : Terms) (images : List (ImageHead × Option AnnotationRevision)) :
    List ExportExclusion := images.filterMap terms.leaves

/-- The groups of some samples, each on its side. -/
def sided (placed : List (ExportSample × List String)) : BTreeMap String Split :=
  placed.foldl (fun groups entry => groups.insert entry.1.groupId entry.1.split) ∅

/-- The instances of some samples, each class with the side it is on. -/
def onSides (placed : List (ExportSample × List String)) : List (String × String) :=
  placed.flatMap fun entry => entry.2.map fun name => (name, entry.1.split.asStr)

/-- What the walk has put together, in terms of the images it came by. -/
structure Assembles (terms : Terms) (images : List (ImageHead × Option AnnotationRevision))
    (built : Assembled) : Prop where
  samples : built.samples = (terms.placed images).map (·.1)
  excluded : built.excluded = terms.leftOut images
  groups : built.groups = sided (terms.placed images)
  instances : built.counts.instances = ((terms.placed images).map (·.2.length)).sum
  imagesPerSplit : built.counts.imagesPerSplit =
    Counts.counted ((terms.placed images).map (·.1.split.asStr))
  groupsPerSplit : built.counts.groupsPerSplit = ∅
  instancesPerClass : built.counts.instancesPerClass =
    Counts.counted ((terms.placed images).flatMap (·.2))
  instancesPerClassSplit : built.counts.instancesPerClassSplit =
    Counts.countedBy (onSides (terms.placed images))

theorem foldl_instance (split : Split) (kept : List String) (counts : ExportCounts) :
    kept.foldl (ExportCounts.instance split) counts =
      { counts with
        instancesPerClass := kept.foldl bump counts.instancesPerClass
        instancesPerClassSplit := (kept.map fun name => (name, split.asStr)).foldl bumpBy
          counts.instancesPerClassSplit } := by
  induction kept generalizing counts with
  | nil => rfl
  | cons name kept ih => rw [foldl_cons, ih]; rfl

theorem Assembles.add {built : Assembled} (h : terms.Assembles images built)
    (image : ImageHead × Option AnnotationRevision) :
    terms.Assembles (images ++ [image]) (terms.add built image) := by
  cases hplace : terms.place image.1 image.2 with
  | error why =>
    have hplaced : terms.placed (images ++ [image]) = terms.placed images := by
      simp [placed, hplace, Except.toOption]
    have hleft : terms.leftOut (images ++ [image]) = terms.leftOut images ++
        [⟨image.1.image.imageId, image.1.image.groupId, why.1, why.2⟩] := by
      simp [leftOut, leaves, hplace]
    rw [Terms.add, hplace]
    exact ⟨hplaced ▸ h.samples, by rw [hleft, ← h.excluded], hplaced ▸ h.groups,
      hplaced ▸ h.instances, hplaced ▸ h.imagesPerSplit, h.groupsPerSplit,
      hplaced ▸ h.instancesPerClass, hplaced ▸ h.instancesPerClassSplit⟩
  | ok entry =>
    have hplaced : terms.placed (images ++ [image]) = terms.placed images ++ [entry] := by
      simp [placed, hplace, Except.toOption]
    have hleft : terms.leftOut (images ++ [image]) = terms.leftOut images := by
      simp [leftOut, leaves, hplace]
    rw [Terms.add, hplace]
    dsimp only
    rw [foldl_instance]
    refine ⟨?_, ?_, ?_, ?_, ?_, h.groupsPerSplit, ?_, ?_⟩
    · rw [hplaced, map_append, ← h.samples]
      rfl
    · rw [hleft, ← h.excluded]
    · rw [hplaced, sided, foldl_append, ← sided, ← h.groups]
      rfl
    · rw [hplaced, map_append, sum_append, ← h.instances]
      simp
    · rw [hplaced, map_append, counted, foldl_append, ← counted, ← h.imagesPerSplit]
      rfl
    · rw [hplaced, flatMap_append, counted, foldl_append, ← counted, ← h.instancesPerClass]
      simp
    · rw [hplaced, onSides, flatMap_append, countedBy, foldl_append,
        ← countedBy, ← onSides, ← h.instancesPerClassSplit]
      simp

end Terms

/-! ## The samples and the counts -/

/-- The counts of an export add up: by split, by family, by class, and by class and split. -/
structure ExportManifest.Consistent (manifest : ExportManifest) : Prop where
  images : manifest.counts.images = manifest.samples.length
  excluded : manifest.counts.excluded = manifest.excluded.length
  imagesPerSplit : ∀ split : Split, (manifest.counts.imagesPerSplit[split.asStr]?).getD 0 =
    manifest.samples.countP fun sample => sample.split = split
  imagesAllSplits : Table.tally (fun _ count => count) manifest.counts.imagesPerSplit =
    manifest.counts.images
  groups : manifest.counts.groups = (manifest.samples.map (·.groupId)).dedup.length
  groupsPerSplit : ∀ split : Split, (manifest.counts.groupsPerSplit[split.asStr]?).getD 0 =
    ((manifest.samples.filter fun sample => sample.split = split).map (·.groupId)).dedup.length
  groupsAllSplits : Table.tally (fun _ count => count) manifest.counts.groupsPerSplit =
    manifest.counts.groups
  instances : manifest.counts.instances = (manifest.samples.map (·.instances)).sum
  instancesAllClasses : Table.tally (fun _ count => count) manifest.counts.instancesPerClass =
    manifest.counts.instances
  instancesPerClass : ∀ name : String, Table.tally (fun _ count => count)
      ((manifest.counts.instancesPerClassSplit[name]?).getD ∅) =
    (manifest.counts.instancesPerClass[name]?).getD 0
  instancesPerSplit : ∀ split : Split, Table.tally
      (fun _ (counts : BTreeMap String Nat) => (counts[split.asStr]?).getD 0)
      manifest.counts.instancesPerClassSplit =
    ((manifest.samples.filter fun sample => sample.split = split).map (·.instances)).sum

namespace Terms

variable {terms : Terms} {images : List (ImageHead × Option AnnotationRevision)}
  {placed : List (ExportSample × List String)}

end Terms

/-! ## One export -/

section Build

variable {rendering : Rendering} {project : AnnotationProject} {request : ExportRequest}
  {images : List (ImageHead × Option AnnotationRevision)} {createdAt : OffsetDateTime}
  {manifest : ExportManifest}

end Build

/-! ## Ratios and views -/

/-- The ratios add up to 100, as numbers. -/
def SplitRatios.Percentages (ratios : SplitRatios) : Prop :=
  ratios.train.toNat + ratios.validation.toNat + ratios.test.toNat = 100

/-- The sum of the ratios fits in 32 bits. -/
def SplitRatios.Fits (ratios : SplitRatios) : Prop :=
  ratios.train.toNat + ratios.validation.toNat + ratios.test.toNat < 2 ^ 32

instance (ratios : SplitRatios) : Decidable ratios.Percentages :=
  inferInstanceAs (Decidable (_ = _))

instance (ratios : SplitRatios) : Decidable ratios.Fits := inferInstanceAs (Decidable (_ < _))

/-- What an export accounts for, beside what the same project and request make of other lists of
images, and of other orders of the same. -/
structure Accounted (rendering : Rendering) (project : AnnotationProject) (request : ExportRequest)
    (images : List (ImageHead × Option AnnotationRevision)) (manifest : ExportManifest) :
    Prop where
  listed : (manifest.samples.map (·.imageId) ++ manifest.excluded.map (·.imageId)).Perm
    (images.map (·.1.image.imageId))
  once : ∀ sample ∈ manifest.samples, ∀ exclusion ∈ manifest.excluded,
    sample.imageId ≠ exclusion.imageId
  counts : manifest.Consistent
  family : ∀ sample ∈ manifest.samples, ∀ other ∈ manifest.samples,
    sample.groupId = other.groupId → sample.split = other.split
  stays : ∀ images' createdAt' manifest', images ⊆ images' →
    build rendering project request images' createdAt' = .ok manifest' →
      ∀ sample ∈ manifest.samples, ∀ other ∈ manifest'.samples,
        sample.groupId = other.groupId → sample.split = other.split
  percentages : project.splits.Percentages ∧ manifest.splits.Percentages
  order : ∀ images' classes views createdAt', images'.Perm images →
    classes.Perm request.classes → views.Perm request.views →
      ∃ manifest', build rendering project { request with classes, views } images' createdAt' =
        .ok manifest' ∧ manifest'.export = manifest.export

section Account

variable {rendering : Rendering} {project : AnnotationProject} {request : ExportRequest}
  {images : List (ImageHead × Option AnnotationRevision)} {createdAt : OffsetDateTime}
  {manifest : ExportManifest}

section

variable (hbuild : build rendering project request images createdAt = .ok manifest)

include hbuild

end

end Account

def wall : LabelClass := ⟨"wall", .polyline, "#7c8794", "", [], [], [], [], false, 0⟩

def asking (views : List String) : ExportRequest where
  project := "plans"
  note := ""
  rightsPolicy := .commercial
  requireHumanReview := true
  classes := ["wall"]
  splits := none
  splitSalt := none
  views := views

end Aiwatcher.Annotations
