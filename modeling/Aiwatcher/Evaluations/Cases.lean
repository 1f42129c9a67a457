import Aiwatcher.Evaluations.Comparison
import Aiwatcher.Library.Joins

/-!
# Aiwatcher.Evaluations.Cases

The cases of a published result, a page at a time, and the case diff of two of them (`cases`,
`compare_cases` and `Side` in `registry.rs`).

What reading a header, and what reading an object under its digest comes to, is a parameter; the
objects do not change while pages are read.
-/

namespace Aiwatcher.Evaluations

open Library

/-! ## What is read -/

structure Shard where
  actual : String
  expected : String
  count : Nat
  deriving DecidableEq, Repr

/-- Of a result's header, what its cases are read by. -/
structure Metadata where
  manifest : EvaluationManifest
  shards : List Shard

/-- The registry, as it answers one subject while pages are read. -/
structure Reader where
  pageSize : Nat
  contentAccess : Bool
  /-- Whether there is a cipher. -/
  ciphered : Bool
  read : String → Except EvaluationError (Option (DurableEvaluation × Option Metadata))
  /-- An object of an evaluation by its digest, verified. -/
  actual : String → String → Bool → Except EvaluationError (List CaseMeasurement)
  expected : String → String → Bool → Except EvaluationError (List Value)

namespace Reader

def isProtected (reader : Reader) (manifest : EvaluationManifest) : Except EvaluationError Bool :=
  let closed := manifest.context.dataset.kind = .conversations
  if closed ∧ (reader.contentAccess = false ∨ reader.ciphered = false) then
    .error (.unavailable .forbidden)
  else .ok closed

def readMeasurements (reader : Reader) (id : String) (shard : Shard) (closed : Bool) :
    Except EvaluationError (List CaseMeasurement) := do
  let actual ← reader.actual id shard.actual closed
  if actual.length ≠ shard.count then throw (.unavailable .corruptArtifact)
  return actual

end Reader

/-- A case of a result, as its page shows it. -/
structure EvidenceCase where
  measurement : CaseMeasurement
  expected : Value
  «at» : Option String

def Reader.readShard (reader : Reader) (id : String) (shard : Shard) (closed : Bool) :
    Except EvaluationError (List EvidenceCase) := do
  let actual ← reader.readMeasurements id shard closed
  let expected ← reader.expected id shard.expected closed
  if expected.length ≠ shard.count then throw (.unavailable .corruptArtifact)
  return List.zipWith (fun measurement expected => ⟨measurement, expected, none⟩) actual expected

/-! ## Cursors -/

/-- A number's digits may stand behind a `+`. -/
def unsigned : List Char → List Char
  | '+' :: digits => digits
  | digits => digits

/-- `parse::<usize>`. -/
def parseUsize (text : String) : Option Nat :=
  let digits := unsigned text.toList
  if digits ≠ [] ∧ digits.all Char.isDigit then some (Nat.ofDigitChars 10 digits 0) else none

/-- `strip_prefix`. -/
def stripLead (lead text : String) : Option String :=
  if lead.toList <+: text.toList then some (String.ofList (text.toList.drop lead.length)) else none

def cursorOf (version : String) (offset : Nat) : String := version ++ ":" ++ toString offset

/-- Where a page of the diff of two results stopped. -/
def diffCursor (version : String) (left : Nat) (baselineVersion : String) (right : Nat) : String :=
  cursorOf version left ++ ":" ++ cursorOf baselineVersion right

/-! ## One result's cases -/

structure CasePage where
  version : String
  cases : List EvidenceCase
  nextCursor : Option String
  state : EvidenceState

/-- What of the shards lies between two positions. -/
def casesBetween (reader : Reader) (id version : String) (closed : Bool) (offset «end» : Nat) :
    Nat → List Shard → Except EvaluationError (List EvidenceCase)
  | _, [] => .ok []
  | start, shard :: shards => do
      if start < «end» ∧ offset < start + shard.count then
        let rows ← reader.readShard id shard closed
        let first := max start offset
        let page := ((rows.drop (offset - start)).take («end» - first)).zipIdx first
        let rest ← casesBetween reader id version closed offset «end» (start + shard.count) shards
        return page.map (fun (case, position) =>
          { case with «at» := some (cursorOf version position) }) ++ rest
      else casesBetween reader id version closed offset «end» (start + shard.count) shards

/-- A page whose shard is damaged shows that, and no case. -/
def damagedOr {α : Type} (damaged : EvidenceState → α) : Except EvaluationError α →
    Except EvaluationError α
  | .error (.unavailable state) => .ok (damaged state)
  | answer => answer

def pageOf (reader : Reader) (id version : String) (cursor : Option String) (limit : Option Nat)
    (state : EvidenceState) (metadata : Metadata) : Except EvaluationError CasePage := do
  let offset ← match cursor with
    | none => pure 0
    | some cursor =>
      match (stripLead (version ++ ":") cursor).bind parseUsize with
      | some offset => pure offset
      | none => throw (.invalid "cursor" "must belong to this result version")
  let limit := limit.getD reader.pageSize
  require (0 < limit ∧ limit ≤ 200) "limit" "must be 1..200"
  let closed ← reader.isProtected metadata.manifest
  let total := (metadata.shards.map (·.count)).sum
  require (offset ≤ total) "cursor" "beyond result"
  let «end» := min (offset + limit) total
  damagedOr (fun state => ⟨version, [], none, state⟩) do
    let cases ← casesBetween reader id version closed offset «end» 0 metadata.shards
    return {
      version
      cases
      nextCursor := if «end» < total then some (cursorOf version «end») else none
      state }

def Reader.cases (reader : Reader) (id version : String) (cursor : Option String)
    (limit : Option Nat) : Except EvaluationError (Option CasePage) := do
  match ← reader.read id with
  | none => return none
  | some (detail, metadata) =>
    require (detail.receipt.version = version) "version" "does not match the immutable result"
    match metadata with
    | none => return some ⟨version, [], none, detail.state⟩
    | some metadata =>
      if detail.state = .complete ∨ detail.state = .partly then
        return some (← pageOf reader id version cursor limit detail.state metadata)
      else return some ⟨version, [], none, detail.state⟩

/-! ## Two results' cases -/

/-- How many cases one request may walk to fill a page of the diff. -/
def DIFF_SCAN : Nat := 2000

/-- One side of a case diff, read a shard at a time. -/
structure Side where
  id : String
  closed : Bool
  shards : List Shard
  offset : Nat
  /-- The shard read last: its index, the offset of its first case, and its measurements. -/
  loaded : Option (Nat × Nat × List CaseMeasurement)

namespace Side

def total (side : Side) : Nat := (side.shards.map (·.count)).sum

def done (side : Side) : Bool := side.total ≤ side.offset

/-- The shard a position falls in: its index, and the offset of its first case. -/
def locate (offset : Nat) : Nat → Nat → List Shard → Option (Nat × Nat × Shard)
  | _, _, [] => none
  | index, start, shard :: shards =>
    if offset < start + shard.count then some (index, start, shard)
    else locate offset (index + 1) (start + shard.count) shards

def load (reader : Reader) (side : Side) : Except EvaluationError Side :=
  match locate side.offset 0 0 side.shards with
  | none => .ok { side with loaded := none }
  | some (index, start, shard) =>
    if side.loaded.map (·.1) = some index then .ok side
    else do
      let rows ← reader.readMeasurements side.id shard side.closed
      return { side with loaded := some (index, start, rows) }

def peek (side : Side) : Option CaseMeasurement :=
  side.loaded.bind fun (_, start, rows) => rows[side.offset - start]?

/-- The case in hand, and the cursor the case route would want for it. -/
def here (side : Side) (version : String) : Option SideCase :=
  side.peek.map fun case => (case, cursorOf version side.offset)

end Side

structure DiffQuery where
  cursor : Option String
  limit : Option Nat
  only : Option CaseFilter

structure CaseDiffPage where
  comparability : Comparability
  reasons : List String
  cases : List EvidenceCaseDelta
  nextCursor : Option String
  state : EvidenceState

/-- The state the rows on one page were read under, from two sides. -/
def merged (current baseline : EvidenceState) : EvidenceState :=
  if ¬(current = .complete ∨ current = .partly) then current
  else if ¬(baseline = .complete ∨ baseline = .partly) then baseline
  else if current = .partly ∨ baseline = .partly then .partly
  else .complete

/-- Where the two sides of a page start. -/
def offsetsOf (version baselineVersion : String) : Option String →
    Except EvaluationError (Nat × Nat)
  | none => .ok (0, 0)
  | some cursor =>
    let offsets := match split cursor ':' with
      | [v, left, w, right] =>
        if v = version ∧ w = baselineVersion then
          (parseUsize left).bind fun left => (parseUsize right).map fun right => (left, right)
        else none
      | _ => none
    match offsets with
    | some offsets => .ok offsets
    | none => .error (.invalid "cursor" "must belong to both immutable results")

/-- What the two sides in hand come to: the next row, and the sides behind it. -/
def advance (arithmetic : Arithmetic) (declared : List MetricDefinition)
    (version baselineVersion : String) (left right : Side) :
    Option (EvidenceCaseDelta × Side × Side) :=
  match left.peek, right.peek with
  | none, none => none
  | some _, none =>
    some (diffCase arithmetic declared (left.here version) none,
      { left with offset := left.offset + 1 }, right)
  | none, some _ =>
    some (diffCase arithmetic declared none (right.here baselineVersion),
      left, { right with offset := right.offset + 1 })
  | some now, some «then» =>
    match Ord.compare now.caseId «then».caseId with
    | .lt =>
      some (diffCase arithmetic declared (left.here version) none,
        { left with offset := left.offset + 1 }, right)
    | .gt =>
      some (diffCase arithmetic declared none (right.here baselineVersion),
        left, { right with offset := right.offset + 1 })
    | .eq =>
      some (diffCase arithmetic declared (left.here version) (right.here baselineVersion),
        { left with offset := left.offset + 1 }, { right with offset := right.offset + 1 })

/-- The walk of one page, with how many cases it may still walk. -/
def walk (arithmetic : Arithmetic) (reader : Reader) (declared : List MetricDefinition)
    (version baselineVersion : String) (only : Option CaseFilter) (limit : Nat) :
    Nat → Side → Side → List EvidenceCaseDelta →
      Except EvaluationError (List EvidenceCaseDelta × Side × Side)
  | 0, left, right, cases => .ok (cases, left, right)
  | scan + 1, left, right, cases =>
    if cases.length < limit then do
      let left ← left.load reader
      let right ← right.load reader
      match advance arithmetic declared version baselineVersion left right with
      | none => return (cases, left, right)
      | some (delta, left, right) =>
        walk arithmetic reader declared version baselineVersion only limit scan left right
          (if only.all (·.keeps delta.change) then cases ++ [delta] else cases)
    else .ok (cases, left, right)

/-- The page of two results whose headers were read. -/
def diffPage (arithmetic : Arithmetic) (reader : Reader) (id baselineId : String)
    (query : DiffQuery) (current baseline : DurableEvaluation)
    (currentMetadata baselineMetadata : Metadata) : Except EvaluationError CaseDiffPage := do
  let version := current.receipt.version
  let baselineVersion := baseline.receipt.version
  let page : CaseDiffPage := {
    comparability := (comparability current baseline).1
    reasons := (comparability current baseline).2
    cases := []
    nextCursor := none
    state := merged current.state baseline.state }
  let limit := query.limit.getD reader.pageSize
  require (0 < limit ∧ limit ≤ 200) "limit" "must be 1..200"
  let (left, right) ← offsetsOf version baselineVersion query.cursor
  let declared := currentMetadata.manifest.context.metrics
  let closed ← reader.isProtected currentMetadata.manifest
  let baselineClosed ← reader.isProtected baselineMetadata.manifest
  let left : Side := ⟨id, closed, currentMetadata.shards, left, none⟩
  let right : Side := ⟨baselineId, baselineClosed, baselineMetadata.shards, right, none⟩
  require (left.offset ≤ left.total ∧ right.offset ≤ right.total) "cursor" "beyond result"
  damagedOr (fun state => { page with state }) do
    let (cases, left, right) ← walk arithmetic reader declared version baselineVersion query.only
      limit DIFF_SCAN left right []
    return { page with
      cases
      nextCursor :=
        if !left.done || !right.done then
          some (diffCursor version left.offset baselineVersion right.offset)
        else none }

def Reader.compareCases (reader : Reader) (arithmetic : Arithmetic) (id baselineId : String)
    (query : DiffQuery) : Except EvaluationError (Option CaseDiffPage) := do
  match ← reader.read id with
  | none => return none
  | some (current, currentMetadata) =>
    match ← reader.read baselineId with
    | none => return none
    | some (baseline, baselineMetadata) =>
      let bare : CaseDiffPage := {
        comparability := (comparability current baseline).1
        reasons := (comparability current baseline).2
        cases := []
        nextCursor := none
        state := merged current.state baseline.state }
      match currentMetadata, baselineMetadata with
      | some currentMetadata, some baselineMetadata =>
        if bare.comparability = .incompatible then return some bare
        else return some (← diffPage arithmetic reader id baselineId query current baseline
          currentMetadata baselineMetadata)
      | _, _ => return some bare

end Aiwatcher.Evaluations
