import Aiwatcher.Strings

/-!
# Aiwatcher.Annotations.Model

The records of the annotation registry: what may be drawn (`schema.rs`), what was drawn
(`shapes.rs`), the images it is drawn on (`images/mod.rs`), what may be done with them
(`license.rs`), and how a project deals its families out (`project.rs`).
-/

namespace Aiwatcher.Annotations

inductive AnnotationError where
  | invalid (message : String)
  | rejected (problems : List String)
  | notFound (what : String)
  | tooLarge (what : String) (size limit : Nat)
  deriving DecidableEq, Repr

/-! ## Names -/

def MAX_NAME_BYTES : Nat := 160

/-- `is_ascii_alphanumeric`. -/
def isAlphanumeric (c : Char) : Bool := c.isAlpha || c.isDigit

/-- A first letter or digit, then letters, digits and some punctuation. -/
def wellFormed (punctuation : List Char) (text : String) : Bool :=
  text.toList.head?.any isAlphanumeric &&
    text.toList.tail.all fun c => isAlphanumeric c || punctuation.contains c

def validateName (name what : String) : Except AnnotationError Unit :=
  if name.isEmpty ∨ MAX_NAME_BYTES < byteLength name then
    .error (.invalid s!"{what} name must be between 1 and {MAX_NAME_BYTES} bytes")
  else if (split name '/').all fun segment =>
      wellFormed ['-', '_', '.'] segment && segment != "." && segment != ".." then .ok ()
  else
    .error (.invalid (s!"{what} name segments must start with a letter or number and hold only " ++
      "letters, numbers, '.', '_' or '-'"))

/-! ## What may be drawn -/

inductive GeometryKind where
  | point | bbox | polyline | polygon | keypoints
  deriving DecidableEq, Repr

inductive AttributeKind where
  | «enum» | bool | number | text
  deriving DecidableEq, Repr

structure AttributeDef where
  name : String
  kind : AttributeKind
  values : List String
  required : Bool
  default : Option Value
  description : String

structure LinkDef where
  name : String
  targets : List String
  min : Nat
  max : Nat
  deriving DecidableEq, Repr

structure LabelClass where
  name : String
  geometry : GeometryKind
  color : String
  description : String
  attributes : List AttributeDef
  keypoints : List String
  optionalKeypoints : List String
  links : List LinkDef
  ignore : Bool
  layer : UInt8

structure LabelSchema where
  version : String
  classes : List LabelClass
  createdAt : OffsetDateTime

/-- A field that is left out where it is empty. -/
def unlessEmpty (key text : String) : List (String × Value) :=
  if text.isEmpty then [] else [(key, .string text)]

def ofNat (n : Nat) : Value := ofU64 (UInt64.ofNat n)

namespace LabelSchema

def «class» (schema : LabelSchema) (name : String) : Option LabelClass :=
  schema.classes.find? (·.name = name)

def classNames (schema : LabelSchema) : List String := schema.classes.map (·.name)

end LabelSchema

/-! ## What was drawn -/

/-- A position, by the bits of its two doubles. -/
abbrev Point := UInt64 × UInt64

structure Keypoint where
  name : String
  «at» : Point
  visible : Bool
  deriving DecidableEq, Repr

inductive Geometry where
  | point («at» : Point)
  | bbox (min max : Point)
  | polyline (points : List Point)
  | polygon (exterior : List Point) (holes : List (List Point))
  | keypoints (points : List Keypoint)
  deriving DecidableEq, Repr

inductive Origin where
  | human | model | «import» | ocr
  deriving DecidableEq, Repr

structure Annotation where
  id : String
  «class» : String
  geometry : Geometry
  attributes : BTreeMap String Value
  links : BTreeMap String (List String)
  origin : Origin
  confidence : Option UInt64
  text : Option String

/-! ## What may be done with it -/

inductive UsageRights where
  | owned (grant : String)
  | licensed (license : String) (url : Option String)
  | researchOnly (license : String) (url : Option String)
  | unknown
  deriving DecidableEq, Repr

inductive RightsPolicy where
  | commercial | research | any
  deriving DecidableEq, Repr

def RightsPolicy.asStr : RightsPolicy → String
  | .commercial => "commercial"
  | .research => "research"
  | .any => "any"

namespace UsageRights

def summary : UsageRights → String
  | owned _ => "owned"
  | licensed license _ => license
  | researchOnly license _ => s!"{license} (research only)"
  | unknown => "unknown"

def allows : UsageRights → RightsPolicy → Bool
  | _, .any => true
  | owned _, _ => true
  | licensed _ _, _ => true
  | researchOnly _ _, .research => true
  | researchOnly _ _, .commercial => false
  | unknown, _ => false

end UsageRights

/-! ## Images -/

/-- Of an image, what its exports show. -/
structure ImageRecord where
  imageId : String
  uri : String
  width : UInt32
  height : UInt32
  groupId : String
  source : String
  rights : UsageRights
  view : String
  level : Option String
  deriving DecidableEq, Repr

inductive ReviewState where
  | draft | inReview | accepted | rejected
  deriving DecidableEq, Repr

def ReviewState.asStr : ReviewState → String
  | .draft => "draft"
  | .inReview => "in_review"
  | .accepted => "accepted"
  | .rejected => "rejected"

/-- Of a revision, what an export reads of it. -/
structure AnnotationRevision where
  project : String
  imageId : String
  schemaVersion : String
  revision : String
  annotations : List Annotation

structure ImageHead where
  image : ImageRecord
  review : ReviewState
  accepted : Option String
  /-- The ids of the revisions, newest first. -/
  revisions : List String
  deriving DecidableEq, Repr

/-! ## Projects -/

inductive Split where
  | train | validation | test
  deriving DecidableEq, Repr

def Split.asStr : Split → String
  | .train => "train"
  | .validation => "validation"
  | .test => "test"

/-- Percentages, summing to 100. -/
structure SplitRatios where
  train : UInt32
  validation : UInt32
  test : UInt32
  deriving DecidableEq, Repr

/-- The sum is taken in 32 bits. -/
def SplitRatios.validate (ratios : SplitRatios) : Except AnnotationError Unit :=
  if ratios.train + ratios.validation + ratios.test = 100 then .ok ()
  else
    .error (.invalid (s!"split ratios must add up to 100; {ratios.train}+{ratios.validation}+" ++
      s!"{ratios.test} is {ratios.train + ratios.validation + ratios.test}"))

structure AnnotationProject where
  name : String
  description : String
  schema : LabelSchema
  splits : SplitRatios
  splitSalt : String
  splitOverrides : BTreeMap String Split
  createdAt : OffsetDateTime
  updatedAt : OffsetDateTime

end Aiwatcher.Annotations
