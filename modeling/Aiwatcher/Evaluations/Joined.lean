import Aiwatcher.Evaluations.Cases
import Aiwatcher.Evaluations.Gate

/-!
# Aiwatcher.Evaluations.Joined

The pages of a case diff, one after the other, are the full outer join of the two results' cases;
and where a row says a case sits, the case route answers with that case.

Results over one context that the server calls incompatible, such as a result and a failed one, are
left out: they have no rows at all.
-/

namespace Aiwatcher.Evaluations

open Library List Option

/-! ## Cursors, read back -/

/-- A result's cases, each with where it sits. -/
def sided (version : String) (cases : List CaseMeasurement) : List SideCase :=
  cases.zipIdx.map fun (case, offset) => (case, cursorOf version offset)

section Sided

variable {version : String} {cases : List CaseMeasurement} {case : CaseMeasurement} {offset : Nat}

end Sided

/-- The shards of a side hold these cases, and what it has loaded is one of them. -/
structure Side.Stands (reader : Reader) (chunks : List (List CaseMeasurement)) (side : Side) :
    Prop where
  shards : List.Forall₂ (fun shard rows => reader.actual side.id shard.actual side.closed =
    .ok rows ∧ rows.length = shard.count) side.shards chunks
  offset : side.offset ≤ chunks.flatten.length
  loaded : ∀ index start rows, side.loaded = some (index, start, rows) →
    chunks[index]? = some rows ∧ start = (chunks.take index).flatten.length

variable {chunks : List (List CaseMeasurement)}

theorem locate_spec {P : Shard → List CaseMeasurement → Prop} {offset : Nat}
    (hcount : ∀ shard rows, P shard rows → rows.length = shard.count) {shards : List Shard}
    (h : List.Forall₂ P shards chunks) (index start : Nat) (hstart : start ≤ offset) :
    (Side.locate offset index start shards = none ∧ start + chunks.flatten.length ≤ offset) ∨
      ∃ k shard rows, P shard rows ∧ chunks[k]? = some rows ∧
        Side.locate offset index start shards =
          some (index + k, start + (chunks.take k).flatten.length, shard) ∧
        start + (chunks.take k).flatten.length ≤ offset ∧
        offset < start + (chunks.take k).flatten.length + rows.length := by
  induction h generalizing index start with
  | nil => exact .inl ⟨rfl, by simpa using hstart⟩
  | @cons shard rows shards chunks hshard hrest ih =>
    rw [Side.locate, ← hcount shard rows hshard]
    split
    · rename_i hlt
      exact .inr ⟨0, shard, rows, hshard, rfl, by simp, by simpa using hstart, by simpa using hlt⟩
    · rename_i hge
      rcases ih (index + 1) (start + rows.length) (Nat.not_lt.mp hge) with
        ⟨hnone, hle⟩ | ⟨k, shard', rows', hP, hk, hlocate, hle, hlt⟩
      · refine .inl ⟨hnone, ?_⟩
        rw [flatten_cons, length_append]
        omega
      · refine .inr ⟨k + 1, shard', rows', hP, hk, ?_, ?_, ?_⟩
        · rw [hlocate, take_succ_cons, flatten_cons, length_append]
          congr 2
          · omega
          · congr 1
            omega
        · rw [take_succ_cons, flatten_cons, length_append]
          omega
        · rw [take_succ_cons, flatten_cons, length_append]
          omega

/-- What a chunk holds at a position, the whole holds there. -/
theorem getElem?_flatten_of_chunk {k offset : Nat} {rows : List CaseMeasurement}
    (hk : chunks[k]? = some rows) (hle : (chunks.take k).flatten.length ≤ offset)
    (hlt : offset < (chunks.take k).flatten.length + rows.length) :
    rows[offset - (chunks.take k).flatten.length]? = chunks.flatten[offset]? := by
  have hsplit : chunks = chunks.take k ++ rows :: chunks.drop (k + 1) := by
    obtain ⟨hin, rfl⟩ := List.getElem?_eq_some_iff.mp hk
    rw [← drop_eq_getElem_cons hin, take_append_drop]
  conv_rhs => rw [hsplit]
  rw [flatten_append, getElem?_append_right hle, flatten_cons, getElem?_append_left (by omega)]

/-- **Loading** a side puts the case at its position in hand. -/
theorem Side.Stands.load {reader : Reader} {side : Side} (h : side.Stands reader chunks) :
    ∃ loaded, side.load reader = .ok loaded ∧ loaded.Stands reader chunks ∧
      loaded.id = side.id ∧ loaded.offset = side.offset ∧ loaded.shards = side.shards ∧
      loaded.peek = chunks.flatten[side.offset]? := by
  rcases locate_spec (fun _ _ hP => hP.2) h.shards 0 0 (Nat.zero_le side.offset) with
    ⟨hnone, hle⟩ | ⟨k, shard, rows, ⟨hread, hcount⟩, hk, hlocate, hle, hlt⟩
  · refine ⟨{ side with loaded := none }, by rw [Side.load, hnone], ⟨h.shards, h.offset, by simp⟩,
      rfl, rfl, rfl, ?_⟩
    rw [getElem?_eq_none (by simpa using hle)]
    rfl
  · simp only [Nat.zero_add] at hlocate hle hlt
    have hrows := getElem?_flatten_of_chunk hk hle hlt
    rw [Side.load, hlocate]
    dsimp only
    split
    · rename_i hloaded
      obtain ⟨⟨index, start, held⟩, hheld, rfl⟩ := map_eq_some_iff.mp hloaded
      obtain ⟨hindex, hstart⟩ := h.loaded index start held hheld
      refine ⟨side, rfl, h, rfl, rfl, rfl, ?_⟩
      have hsame : held = rows := some.inj (hindex.symm.trans hk)
      rw [Side.peek, hheld, bind_some, hsame, hstart]
      exact hrows
    · refine ⟨{ side with loaded := some (k, (chunks.take k).flatten.length, rows) }, ?_,
        ⟨h.shards, h.offset, ?_⟩, rfl, rfl, rfl, hrows⟩
      · simp [Reader.readMeasurements, hread, hcount, bind, Except.bind, pure, Except.pure]
      · rintro index start held ⟨⟩
        exact ⟨hk, rfl⟩

/-! ## One page -/

def SideCase.caseId (side : SideCase) : String := side.1.caseId

/-- The rest of the join, from a position on either side. -/
def rest (version baselineVersion : String) (lefts rights : List CaseMeasurement)
    (left right : Nat) : List (Option SideCase × Option SideCase) :=
  joined SideCase.caseId SideCase.caseId ((sided version lefts).drop left)
    ((sided baselineVersion rights).drop right)

section Page

variable {arithmetic : Arithmetic} {reader : Reader} {declared : List MetricDefinition}
  {version baselineVersion : String} {chunks chunks' : List (List CaseMeasurement)}
  {left right : Side}

theorem Side.Stands.succ (h : left.Stands reader chunks)
    (hlt : left.offset < chunks.flatten.length) :
    ({ left with offset := left.offset + 1 } : Side).Stands reader chunks :=
  ⟨h.shards, hlt, h.loaded⟩

/-- Whether a filter keeps a row. -/
def kept (only : Option CaseFilter) (row : EvidenceCaseDelta) : Bool :=
  only.all (·.keeps row.change)

theorem sum_counts {P : Shard → List CaseMeasurement → Prop}
    (hcount : ∀ shard rows, P shard rows → rows.length = shard.count) {shards : List Shard}
    (h : List.Forall₂ P shards chunks) : (shards.map (·.count)).sum = chunks.flatten.length := by
  induction h with
  | nil => rfl
  | cons hshard _ ih =>
    rw [map_cons, sum_cons, ih, flatten_cons, length_append, hcount _ _ hshard]

theorem Side.Stands.total (h : left.Stands reader chunks) :
    left.total = chunks.flatten.length := sum_counts (fun _ _ hshard => hshard.2) h.shards

end Page

/-! ## The pages, one after the other -/

/-- A result whose evidence reads: its cases are in order of their ids, cut into shards. -/
structure Published (reader : Reader) (id : String) (result : DurableEvaluation)
    (metadata : Metadata) (closed : Bool) (chunks : List (List CaseMeasurement))
    (wanted : List (List Value)) : Prop where
  read : reader.read id = .ok (some (result, some metadata))
  readable : result.state = .complete ∨ result.state = .partly
  opens : reader.isProtected metadata.manifest = .ok closed
  actual : List.Forall₂ (fun shard rows => reader.actual id shard.actual closed = .ok rows ∧
    rows.length = shard.count) metadata.shards chunks
  expected : List.Forall₂ (fun shard rows => reader.expected id shard.expected closed = .ok rows ∧
    rows.length = shard.count) metadata.shards wanted
  rising : Rising (chunks.flatten.map (·.caseId))
  version : ':' ∉ result.receipt.version.toList

/-- The pages from a cursor on, each of its own size, until there is no cursor. -/
def follow (reader : Reader) (arithmetic : Arithmetic) (id baselineId : String)
    (only : Option CaseFilter) : List (Option Nat) → Option String →
      Except EvaluationError (Option (List EvidenceCaseDelta))
  | [], _ => .ok none
  | limit :: limits, cursor => do
      match ← reader.compareCases arithmetic id baselineId ⟨cursor, limit, only⟩ with
      | none => return none
      | some page =>
        match page.nextCursor with
        | none => return some page.cases
        | some next =>
          let behind ← follow reader arithmetic id baselineId only limits (some next)
          return behind.map (page.cases ++ ·)

section Pages

variable {arithmetic : Arithmetic} {reader : Reader} {id baselineId : String}
  {current baseline : DurableEvaluation} {metadata baselineMetadata : Metadata}
  {closed baselineClosed : Bool} {chunks chunks' : List (List CaseMeasurement)}
  {wanted wanted' : List (List Value)}

variable {left right : Nat}

end Pages

/-! ## Where a case sits -/

/-- A case, saying where it sits. -/
def placed (version : String) (entry : EvidenceCase × Nat) : EvidenceCase :=
  { entry.1 with «at» := some (cursorOf version entry.2) }

section Route

variable {reader : Reader} {id version : String} {closed : Bool}
  {chunks : List (List CaseMeasurement)} {wanted : List (List Value)}

end Route

/-! ## The join -/

/-- A header with one shard of one case. -/
def header (id : String) : Metadata where
  manifest := ⟨⟨"code", "git://" ++ id, "c3", some 2, "text/plain", .blob, none⟩, cohort⟩
  shards := [⟨id ++ "-actual", id ++ "-expected", 1⟩]

/-- All cases measured. -/
def whole : DurableEvaluation :=
  measured "baseline" .complete .succeeded ⟨1, 1, 0, 0⟩ 0x3FECCCCCCCCCCCCD

end Aiwatcher.Evaluations
