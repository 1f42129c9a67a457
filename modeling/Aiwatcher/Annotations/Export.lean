import Aiwatcher.Annotations.Model
import Aiwatcher.Library.Refusal
import Aiwatcher.Library.Tally
import Mathlib.Data.List.Dedup

/-!
# Aiwatcher.Annotations.Export

An export: which images, on which side of the split, at which accepted revision, with every
exclusion and its reason (`export.rs`).

Sums of ratios are taken in 32 bits and wrap, as they do in a release build.
-/

namespace Aiwatcher.Annotations

open Library

/-- What texts are made with: addresses, and a string as `{:?}` shows it. -/
structure Rendering where
  addressing : Addressing
  debug : String → String

/-! ## The records -/

inductive ExclusionReason where
  | rights | unreviewed | empty | schemaMismatch | view | missing | noRequestedClass
  deriving DecidableEq, Repr

def ExclusionReason.asStr : ExclusionReason → String
  | .rights => "rights"
  | .unreviewed => "unreviewed"
  | .empty => "empty"
  | .schemaMismatch => "schema_mismatch"
  | .view => "view"
  | .missing => "missing"
  | .noRequestedClass => "no_requested_class"

structure ExportExclusion where
  imageId : String
  groupId : String
  reason : ExclusionReason
  detail : String
  deriving DecidableEq, Repr

structure ExportSample where
  imageId : String
  uri : String
  width : UInt32
  height : UInt32
  groupId : String
  split : Split
  revision : String
  source : String
  rights : String
  instances : Nat
  level : Option String
  deriving DecidableEq, Repr

structure ExportCounts where
  images : Nat
  groups : Nat
  instances : Nat
  excluded : Nat
  imagesPerSplit : BTreeMap String Nat
  groupsPerSplit : BTreeMap String Nat
  instancesPerClass : BTreeMap String Nat
  instancesPerClassSplit : BTreeMap String (BTreeMap String Nat)

def ExportCounts.default : ExportCounts := ⟨0, 0, 0, 0, ∅, ∅, ∅, ∅⟩

structure ExportRequest where
  project : String
  note : String
  rightsPolicy : RightsPolicy
  requireHumanReview : Bool
  classes : List String
  splits : Option SplitRatios
  splitSalt : Option String
  views : List String
  deriving DecidableEq, Repr

structure ExportManifest where
  «export» : String
  project : String
  schemaVersion : String
  createdAt : OffsetDateTime
  note : String
  rightsPolicy : RightsPolicy
  requireHumanReview : Bool
  views : List String
  splits : SplitRatios
  splitSalt : String
  classes : List String
  samples : List ExportSample
  excluded : List ExportExclusion
  counts : ExportCounts

/-! ## The digest -/

def ExportExclusion.toValue (exclusion : ExportExclusion) : Value :=
  .object (unlessEmpty "detail" exclusion.detail ++
    [("group_id", .string exclusion.groupId), ("image_id", .string exclusion.imageId),
      ("reason", .string exclusion.reason.asStr)])

def ExportSample.toValue (sample : ExportSample) : Value :=
  .object ([("group_id", .string sample.groupId), ("height", ofU32 sample.height),
      ("image_id", .string sample.imageId), ("instances", ofNat sample.instances)] ++
    optional "level" .string sample.level ++
    [("revision", .string sample.revision), ("rights", .string sample.rights)] ++
    unlessEmpty "source" sample.source ++
    [("split", .string sample.split.asStr), ("uri", .string sample.uri),
      ("width", ofU32 sample.width)])

def SplitRatios.toValue (ratios : SplitRatios) : Value :=
  .object [("test", ofU32 ratios.test), ("train", ofU32 ratios.train),
    ("validation", ofU32 ratios.validation)]

namespace ExportManifest

/-- The selection and the pins; time, note and derived counts are left out. -/
def identity (manifest : ExportManifest) : Value :=
  .object [("classes", ofStrings manifest.classes),
    ("excluded", .array (manifest.excluded.map ExportExclusion.toValue)),
    ("project", .string manifest.project),
    ("require_human_review", .bool manifest.requireHumanReview),
    ("rights_policy", .string manifest.rightsPolicy.asStr),
    ("samples", .array (manifest.samples.map ExportSample.toValue)),
    ("schema_version", .string manifest.schemaVersion),
    ("split_salt", .string manifest.splitSalt),
    ("splits", manifest.splits.toValue),
    ("views", ofStrings manifest.views)]

def contentDigest (addressing : Addressing) (manifest : ExportManifest) : String :=
  addressing.digest (addressing.json manifest.identity)

end ExportManifest

/-! ## The split -/

/-- The number that hexadecimal digits stand for. -/
def hexNumber (digits : List Char) : Nat :=
  digits.foldl (fun n c => 16 * n + if c.isDigit then c.toNat - 48 else c.toNat - 87) 0

/-- Which side a family falls on: by the first eight bytes of a digest, which are the first
sixteen of its digits. -/
def splitFor (addressing : Addressing) (groupId salt : String) (ratios : SplitRatios) : Split :=
  let digits := (addressing.digest (salt ++ String.singleton (Char.ofNat 0) ++ groupId)).toList
  let bucket := hexNumber (digits.take 16) % 100
  if bucket < ratios.train.toNat then .train
  else if bucket < (ratios.train + ratios.validation).toNat then .validation
  else .test

def resolveSplit (addressing : Addressing) (project : AnnotationProject) (groupId salt : String)
    (ratios : SplitRatios) : Split :=
  (project.splitOverrides[groupId]?).getD (splitFor addressing groupId salt ratios)

/-! ## One image -/

def AnnotationRevision.touchedByAHuman (revision : AnnotationRevision) : Bool :=
  0 < (revision.annotations.filter fun annotation => annotation.origin = .human).length

/-- What an image is judged by. -/
structure Terms where
  rendering : Rendering
  project : AnnotationProject
  request : ExportRequest
  ratios : SplitRatios
  salt : String
  classes : List String

/-- The sample an image is, with the classes of what was drawn on it; or why it is left out. -/
def Terms.place (terms : Terms) (head : ImageHead) (revision : Option AnnotationRevision) :
    Except (ExclusionReason × String) (ExportSample × List String) := do
  let request := terms.request
  refuseIf (request.views ≠ [] ∧ head.image.view ∉ request.views)
    (.view, s!"the view is {terms.rendering.debug head.image.view}; this export takes " ++
      ", ".intercalate request.views)
  refuseIf (¬ head.image.rights.allows request.rightsPolicy)
    (.rights, s!"{head.image.rights.summary} does not satisfy a " ++
      s!"{request.rightsPolicy.asStr} export")
  let accepted ← okOr (.unreviewed, s!"review is {head.review.asStr}") head.accepted
  let revision ← okOr
    (.missing, s!"the head accepts {accepted}, which is not in the store") revision
  refuseIf (revision.schemaVersion ≠ terms.project.schema.version)
    (.schemaMismatch, "drawn against schema " ++
      String.ofList (revision.schemaVersion.toList.take 12))
  refuseIf (request.requireHumanReview ∧ ¬ revision.touchedByAHuman)
    (.unreviewed, "every shape came from a model or an import")
  let kept := revision.annotations.filter fun annotation =>
    terms.classes.contains annotation.class
  refuseIf revision.annotations.isEmpty (.empty, "")
  refuseIf kept.isEmpty
    (.noRequestedClass, s!"{revision.annotations.length} shapes, none in the requested classes")
  return ({
    imageId := head.image.imageId
    uri := head.image.uri
    width := head.image.width
    height := head.image.height
    groupId := head.image.groupId
    split := resolveSplit terms.rendering.addressing terms.project head.image.groupId
      terms.salt terms.ratios
    revision := revision.revision
    source := head.image.source
    rights := head.image.rights.summary
    instances := kept.length
    level := head.image.level }, kept.map (·.class))

/-! ## All of them -/

/-- What the walk over the images has put together. -/
structure Assembled where
  samples : List ExportSample
  excluded : List ExportExclusion
  counts : ExportCounts
  groups : BTreeMap String Split

/-- One instance, in both tables. -/
def ExportCounts.instance (split : Split) (counts : ExportCounts) (name : String) : ExportCounts :=
  { counts with
    instancesPerClass := Counts.bump counts.instancesPerClass name
    instancesPerClassSplit := Counts.bumpBy counts.instancesPerClassSplit (name, split.asStr) }

def Terms.add (terms : Terms) (built : Assembled)
    (image : ImageHead × Option AnnotationRevision) : Assembled :=
  match terms.place image.1 image.2 with
  | .error (reason, detail) =>
    { built with excluded := built.excluded ++
        [⟨image.1.image.imageId, image.1.image.groupId, reason, detail⟩] }
  | .ok (sample, kept) =>
    let counts := kept.foldl (ExportCounts.instance sample.split) built.counts
    { built with
      samples := built.samples ++ [sample]
      groups := built.groups.insert sample.groupId sample.split
      counts := { counts with
        instances := counts.instances + kept.length
        imagesPerSplit := Counts.bump counts.imagesPerSplit sample.split.asStr } }

/-- The classes asked for, in the schema's order. -/
def requestedClasses (project : AnnotationProject) (request : ExportRequest) :
    Except AnnotationError (List String) := do
  if request.classes.isEmpty then return project.schema.classNames
  request.classes.forM fun name => do
    refuseIf (project.schema.class name).isNone
      (AnnotationError.invalid s!"the class {name} is not in this project's schema")
  return project.schema.classNames.filter fun name => request.classes.contains name

/-- `String`'s order. -/
def inOrder (a b : String) : Bool := (compare a b).isLE

/-- The counts of the whole walk. -/
def Assembled.count (built : Assembled) (samples : List ExportSample)
    (excluded : List ExportExclusion) : ExportCounts :=
  { built.counts with
    images := samples.length
    excluded := excluded.length
    groups := built.groups.size
    groupsPerSplit :=
      (BTreeMap.values built.groups).foldl (fun table split => Counts.bump table split.asStr)
        built.counts.groupsPerSplit }

/-- The manifest of what the walk has put together. -/
def Terms.manifest (terms : Terms) (built : Assembled) (createdAt : OffsetDateTime) :
    ExportManifest :=
  -- Stable order, so the digest does not depend on how the store listed.
  let samples := built.samples.mergeSort fun a b => inOrder a.imageId b.imageId
  let excluded := built.excluded.mergeSort fun a b => inOrder a.imageId b.imageId
  let manifest : ExportManifest := {
    «export» := ""
    project := terms.request.project
    schemaVersion := terms.project.schema.version
    createdAt
    note := terms.request.note
    rightsPolicy := terms.request.rightsPolicy
    requireHumanReview := terms.request.requireHumanReview
    views := terms.request.views
    splits := terms.ratios
    splitSalt := terms.salt
    classes := terms.classes
    samples
    excluded
    counts := built.count samples excluded }
  { manifest with «export» := manifest.contentDigest terms.rendering.addressing }

def build (rendering : Rendering) (project : AnnotationProject) (request : ExportRequest)
    (images : List (ImageHead × Option AnnotationRevision)) (createdAt : OffsetDateTime) :
    Except AnnotationError ExportManifest := do
  validateName request.project "a project"
  let ratios := request.splits.getD project.splits
  ratios.validate
  let salt := request.splitSalt.getD project.splitSalt
  let classes ← requestedClasses project request
  let terms : Terms := ⟨rendering, project, request, ratios, salt, classes⟩
  return terms.manifest (images.foldl terms.add ⟨[], [], .default, ∅⟩) createdAt

end Aiwatcher.Annotations
