import Mathlib.Data.List.Basic

/-!
# Aiwatcher.Library.Records

A file of records, one on a line, that is read by byte offset.

* `splitLines` — the complete lines of a file, and what follows the last line break;
* `RecordCodec.text`, `RecordCodec.placed` — what some records take up, and where each starts;
* `drop_text` — behind the first of some records' bytes the others stand;
* `fitting` — the groups of records that fit whole into some bytes.
-/

namespace Aiwatcher.Library

open List Option

abbrev LineBytes := List UInt8

def lineBreak : UInt8 := 10

/-- Whether some bytes are text. -/
def isText (bytes : LineBytes) : Bool := ByteArray.validateUTF8 ⟨bytes.toArray⟩

theorem isText_toUTF8 (text : String) : isText text.toUTF8.data.toList = true := by
  rw [isText, ByteArray.validateUTF8_eq_true_iff]
  exact text.isValidUTF8

/-- The complete lines of a file, without their line breaks, and what follows the last one. -/
def splitLines : LineBytes → List LineBytes × LineBytes
  | [] => ([], [])
  | byte :: bytes =>
    if byte = lineBreak then ([] :: (splitLines bytes).1, (splitLines bytes).2)
    else match splitLines bytes with
      | ([], tail) => ([], byte :: tail)
      | (line :: lines, tail) => ((byte :: line) :: lines, tail)

theorem splitLines_tail {tail : LineBytes} (h : lineBreak ∉ tail) :
    splitLines tail = ([], tail) := by
  induction tail with
  | nil => rfl
  | cons byte tail ih =>
    rw [mem_cons, not_or] at h
    rw [splitLines, if_neg (Ne.symm h.1), ih h.2]

theorem splitLines_line {line : LineBytes} (h : lineBreak ∉ line) (rest : LineBytes) :
    splitLines (line ++ lineBreak :: rest) =
      (line :: (splitLines rest).1, (splitLines rest).2) := by
  induction line with
  | nil => simp [splitLines]
  | cons byte line ih =>
    rw [mem_cons, not_or] at h
    rw [cons_append, splitLines, if_neg (Ne.symm h.1), ih h.2]

/-! ## Records -/

/-- How a record is written on a line, where it can be, and read from one. -/
structure RecordCodec (α : Type) where
  encode : α → Option LineBytes
  decode : LineBytes → Option α

namespace RecordCodec

variable {α : Type} (codec : RecordCodec α)

/-- What is written of a record is text on one line, and reads as the record. -/
structure Faithful : Prop where
  decode : ∀ record line, codec.encode record = some line → codec.decode line = some record
  oneLine : ∀ record line, codec.encode record = some line → lineBreak ∉ line
  text : ∀ record line, codec.encode record = some line → isText line = true

def line (record : α) : LineBytes := (codec.encode record).getD [] ++ [lineBreak]

/-- The lines of some records. -/
def text (records : List α) : LineBytes := records.flatMap codec.line

/-- Some records, each with the offset its line starts at. -/
def placed : Nat → List α → List (α × Nat)
  | _, [] => []
  | base, record :: records =>
    (record, base) :: placed (base + (codec.line record).length) records

variable {codec}

@[simp] theorem text_nil : codec.text [] = [] := rfl

@[simp] theorem text_cons (record : α) (records : List α) :
    codec.text (record :: records) = codec.line record ++ codec.text records := rfl

@[simp] theorem text_append (records more : List α) :
    codec.text (records ++ more) = codec.text records ++ codec.text more := by
  simp [text]

@[simp] theorem placed_append (base : Nat) (records more : List α) :
    codec.placed base (records ++ more) = codec.placed base records ++
      codec.placed (base + (codec.text records).length) more := by
  induction records generalizing base with
  | nil => rfl
  | cons record records ih => simp [placed, ih, Nat.add_assoc]

@[simp] theorem map_fst_placed (base : Nat) (records : List α) :
    (codec.placed base records).map Prod.fst = records := by
  induction records generalizing base with
  | nil => rfl
  | cons record records ih => simp [placed, ih]

@[simp] theorem length_placed (base : Nat) (records : List α) :
    (codec.placed base records).length = records.length := by
  rw [← length_map Prod.fst, map_fst_placed]

theorem placed_add (base off : Nat) (records : List α) :
    codec.placed (base + off) records =
      (codec.placed off records).map fun placed => (placed.1, base + placed.2) := by
  induction records generalizing off with
  | nil => rfl
  | cons record records ih => simp [placed, ← ih, Nat.add_assoc]

theorem getElem?_placed (records : List α) (i : Nat) : (codec.placed 0 records)[i]? =
    records[i]?.map fun record => (record, (codec.text (records.take i)).length) := by
  have hbase : ∀ base, (codec.placed base records)[i]? =
      records[i]?.map fun record => (record, base + (codec.text (records.take i)).length) := by
    induction records generalizing i with
    | nil => simp [placed]
    | cons record records ih =>
      intro base
      cases i with
      | zero => simp [placed]
      | succ i => simp [placed, ih, Nat.add_assoc]
  simpa using hbase 0

theorem drop_text (records : List α) (i : Nat) :
    (codec.text records).drop (codec.text (records.take i)).length =
      codec.text (records.drop i) := by
  conv_lhs => rw [← take_append_drop i records, text_append]
  simp

variable {records : List α}

theorem splitLines_text (hcodec : codec.Faithful)
    (h : ∀ record ∈ records, (codec.encode record).isSome) {tail : LineBytes}
    (htail : lineBreak ∉ tail) : splitLines (codec.text records ++ tail) =
      (records.filterMap codec.encode, tail) := by
  induction records with
  | nil => simpa using splitLines_tail htail
  | cons record records ih =>
    rw [forall_mem_cons] at h
    obtain ⟨line, hline⟩ := isSome_iff_exists.mp h.1
    have hone := hcodec.oneLine record line hline
    rw [text_cons, RecordCodec.line, hline, getD_some, append_assoc,
      append_assoc, singleton_append, splitLines_line hone, ih h.2,
      filterMap_cons_some hline]

theorem splitLines_whole (hcodec : codec.Faithful)
    (h : ∀ record ∈ records, (codec.encode record).isSome) :
    splitLines (codec.text records) = (records.filterMap codec.encode, []) := by
  have hsplit := splitLines_text hcodec h (not_mem_nil)
  rwa [append_nil] at hsplit

/-! ## Cuts -/

variable (codec) in
/-- The groups of records that fit whole into some bytes, from the first one on. -/
def fitting : Nat → List (List α) → List (List α)
  | _, [] => []
  | n, group :: groups =>
    if (codec.text group).length ≤ n then
      group :: fitting (n - (codec.text group).length) groups
    else []

theorem fitting_prefix (n : Nat) (groups : List (List α)) : codec.fitting n groups <+: groups := by
  induction groups generalizing n with
  | nil => exact prefix_rfl
  | cons group groups ih =>
    unfold fitting
    split
    · exact cons_prefix_cons.mpr ⟨rfl, ih _⟩
    · exact nil_prefix

theorem take_text (n : Nat) (groups : List (List α)) :
    (codec.text groups.flatten).take n = codec.text (codec.fitting n groups).flatten ++
      ((codec.text groups.flatten).take n).drop
        (codec.text (codec.fitting n groups).flatten).length := by
  have hfits : codec.text (codec.fitting n groups).flatten <+:
      (codec.text groups.flatten).take n := by
    induction groups generalizing n with
    | nil => simp [fitting]
    | cons group groups ih =>
      unfold fitting
      split
      · rename_i hle
        rw [flatten_cons, flatten_cons, text_append, text_append, take_append,
          take_of_length_le hle]
        exact (prefix_append_right_inj _).mpr (ih _)
      · exact nil_prefix
  exact (prefix_iff_eq_append.mp hfits).symm

variable (codec) in
/-- The records whose lines stand whole in some bytes, from the first one on. -/
def lead : Nat → List α → List α
  | _, [] => []
  | n, record :: records =>
    if (codec.line record).length ≤ n then
      record :: lead (n - (codec.line record).length) records
    else []

theorem lead_prefix_all (n : Nat) (records : List α) : codec.lead n records <+: records := by
  induction records generalizing n with
  | nil => exact prefix_rfl
  | cons record records ih =>
    unfold lead
    split
    · exact cons_prefix_cons.mpr ⟨rfl, ih _⟩
    · exact nil_prefix

/-- More bytes hold more records. -/
theorem lead_mono {n m : Nat} (h : n ≤ m) (records : List α) :
    codec.lead n records <+: codec.lead m records := by
  induction records generalizing n m with
  | nil => exact prefix_rfl
  | cons record records ih =>
    unfold lead
    by_cases hn : (codec.line record).length ≤ n
    · rw [if_pos hn, if_pos (Nat.le_trans hn h)]
      exact cons_prefix_cons.mpr ⟨rfl, ih (Nat.sub_le_sub_right h _)⟩
    · rw [if_neg hn]
      exact nil_prefix

theorem lead_zero (records : List α) : codec.lead 0 records = [] := by
  cases records with
  | nil => rfl
  | cons record records => simp [lead, line]

theorem take_lead (hcodec : codec.Faithful) (h : ∀ record ∈ records, (codec.encode record).isSome)
    (n : Nat) :
    ∃ rest, (codec.text records).take n = codec.text (codec.lead n records) ++ rest ∧
      lineBreak ∉ rest := by
  induction records generalizing n with
  | nil => exact ⟨[], by simp [lead], by simp⟩
  | cons record records ih =>
    rw [forall_mem_cons] at h
    unfold lead
    split
    · rename_i hle
      obtain ⟨rest, htake, hrest⟩ := ih h.2 (n - (codec.line record).length)
      refine ⟨rest, ?_, hrest⟩
      rw [text_cons, take_append, take_of_length_le hle, htake, text_cons, append_assoc]
    · rename_i hover
      obtain ⟨line, hline⟩ := isSome_iff_exists.mp h.1
      have hone := hcodec.oneLine record line hline
      have hlength : n ≤ line.length := by
        simp only [RecordCodec.line, hline, getD_some, length_append,
          length_singleton, Nat.not_le] at hover
        omega
      refine ⟨line.take n, ?_, fun hmem => hone (mem_of_mem_take hmem)⟩
      rw [text_cons, RecordCodec.line, hline, getD_some, append_assoc,
        take_append_of_le_length hlength]
      rfl

theorem filterMap_decode (hcodec : codec.Faithful)
    (h : ∀ record ∈ records, (codec.encode record).isSome) :
    (records.filterMap codec.encode).filterMap codec.decode = records := by
  induction records with
  | nil => rfl
  | cons record records ih =>
    rw [forall_mem_cons] at h
    obtain ⟨line, hline⟩ := isSome_iff_exists.mp h.1
    rw [filterMap_cons_some hline, filterMap_cons_some (hcodec.decode record line hline), ih h.2]

end RecordCodec

end Aiwatcher.Library
