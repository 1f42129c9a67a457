import Mathlib.Data.List.DropRight

/-!
# Aiwatcher.Library.Lines

Files of lines, one record on each, read back as far as they can be: a file that is not
UTF-8 as nothing, any other up to the first line that was cut short or is no record.

* `read_write` — whole lines are read back;
* `read_front` — of the first bytes of some lines, the complete lines are read back, or
  nothing where a character was cut.
-/

namespace Aiwatcher.Library

open List

/-- Unicode's `White_Space`. -/
def isWhiteSpace (c : Char) : Bool :=
  [0x20, 0x85, 0xA0, 0x1680, 0x2028, 0x2029, 0x202F, 0x205F, 0x3000].contains c.toNat ||
    (Decidable.decide (0x9 ≤ c.toNat) && Decidable.decide (c.toNat ≤ 0xD)) ||
    (Decidable.decide (0x2000 ≤ c.toNat) && Decidable.decide (c.toNat ≤ 0x200A))

/-- A text as it is written. -/
def bytes (text : List Char) : ByteArray := (String.ofList text).toUTF8

theorem bytes_eq (text : List Char) : bytes text = text.utf8Encode := by simp [bytes]

theorem extract_of_size_le {file : ByteArray} {n : Nat} (h : file.size ≤ n) :
    file.extract 0 n = file := by
  ext1
  simp [h]

/-- A text that was cut takes fewer bytes. -/
theorem size_lt_of_front {front whole : List Char} (h : front <+: whole) (hne : front ≠ whole) :
    (bytes front).size < (bytes whole).size := by
  obtain ⟨rest, rfl⟩ := h
  cases rest with
  | nil => simp at hne
  | cons c rest =>
    have hpos := c.utf8Size_pos
    have hc : ([c].utf8Encode).size = c.utf8Size := by simp [utf8Encode_singleton]
    rw [bytes_eq, bytes_eq, utf8Encode_append, utf8Encode_cons]
    simp only [ByteArray.size_append, hc]
    omega

theorem isValidUTF8_bytes_append_iff (text : List Char) {tail : ByteArray} :
    (bytes text ++ tail).IsValidUTF8 ↔ tail.IsValidUTF8 := by
  rw [bytes_eq]
  induction text with
  | nil => simp
  | cons c text ih =>
    rw [utf8Encode_cons, ByteArray.append_assoc,
      ByteArray.isValidUTF8_utf8Encode_singleton_append_iff, ih]

/-- The lines of a text, each with the line break that ends it. -/
def splitInclusive : List Char → List (List Char)
  | [] => []
  | c :: text =>
    if c = '\n' then [c] :: splitInclusive text
    else match splitInclusive text with
      | [] => [[c]]
      | line :: lines => (c :: line) :: lines

theorem splitInclusive_append {text : List Char} (h : '\n' ∉ text) (rest : List Char) :
    splitInclusive (text ++ '\n' :: rest) = (text ++ ['\n']) :: splitInclusive rest := by
  induction text with
  | nil => simp [splitInclusive]
  | cons c text ih =>
    rw [mem_cons, not_or] at h
    have hc : ¬ c = '\n' := fun heq => h.1 heq.symm
    simp [splitInclusive, hc, ih h.2]

theorem splitInclusive_of_notMem {text : List Char} (h : '\n' ∉ text) (hne : text ≠ []) :
    splitInclusive text = [text] := by
  induction text with
  | nil => exact absurd rfl hne
  | cons c text ih =>
    rw [mem_cons, not_or] at h
    have hc : ¬ c = '\n' := fun heq => h.1 heq.symm
    cases text with
    | nil => simp [splitInclusive, hc]
    | cons d text =>
      have htail := ih h.2 (by simp)
      rw [splitInclusive, if_neg hc, htail]

/-! ## Records on lines -/

/-- How a record is written on a line, and read from one. -/
structure LineCodec (α : Type) where
  encode : α → List Char
  decode : List Char → Option α

namespace LineCodec

variable {α : Type} (codec : LineCodec α)

/-- A record that is read from what is written of it: a text on one line, with no blank at
either end. -/
structure Reads (record : α) : Prop where
  decode : codec.decode (codec.encode record) = some record
  oneLine : '\n' ∉ codec.encode record
  starts : ∃ c text, codec.encode record = c :: text ∧ isWhiteSpace c = false
  ends : ∃ text c, codec.encode record = text ++ [c] ∧ isWhiteSpace c = false

def line (record : α) : List Char := codec.encode record ++ ['\n']

/-- The lines of some records. -/
def text (records : List α) : List Char := records.flatMap codec.line

/-- The bytes of some records' lines. -/
def write (records : List α) : ByteArray := bytes (codec.text records)

/-- The records on some lines up to the first one that was cut short or does not read, and
how many bytes they take; blank lines count as read. -/
def readLines : List (List Char) → List α × Nat
  | [] => ([], 0)
  | line :: lines =>
    if line.all isWhiteSpace then
      ((readLines lines).1, (bytes line).size + (readLines lines).2)
    else if line.getLast? ≠ some '\n' then ([], 0)
    else match codec.decode (line.rdropWhile isWhiteSpace) with
      | some record =>
        (record :: (readLines lines).1, (bytes line).size + (readLines lines).2)
      | none => ([], 0)

/-- Every complete record of a file, and how many of its bytes they take. -/
def read (file : ByteArray) : List α × Nat :=
  match file.utf8Decode? with
  | some text => codec.readLines (splitInclusive text.toList)
  | none => ([], 0)

variable {codec}

theorem read_bytes (text : List Char) :
    codec.read (bytes text) = codec.readLines (splitInclusive text) := by
  simp [read, bytes_eq]

theorem read_of_not_isValidUTF8 {file : ByteArray} (h : ¬ file.IsValidUTF8) :
    codec.read file = ([], 0) := by
  unfold read
  cases hdecode : file.utf8Decode? with
  | none => rfl
  | some text => exact absurd (ByteArray.isSome_utf8Decode?_iff.mp (by simp [hdecode])) h

@[simp] theorem text_nil : codec.text [] = [] := rfl

@[simp] theorem text_append (records more : List α) :
    codec.text (records ++ more) = codec.text records ++ codec.text more := by
  simp [text]

@[simp] theorem write_append (records more : List α) :
    codec.write (records ++ more) = codec.write records ++ codec.write more := by
  simp [write, bytes_eq]

/-! ## Reading whole lines -/

theorem readLines_line {record : α} (h : codec.Reads record) (rest : List Char) :
    codec.readLines (splitInclusive (codec.line record ++ rest)) =
      (record :: (codec.readLines (splitInclusive rest)).1,
        (bytes (codec.line record)).size + (codec.readLines (splitInclusive rest)).2) := by
  obtain ⟨c, text, htext, hc⟩ := h.starts
  obtain ⟨front, d, hfront, hd⟩ := h.ends
  have hblank : (codec.line record).all isWhiteSpace = false := by
    simp [line, htext, hc]
  have htrim : (codec.line record).rdropWhile isWhiteSpace = codec.encode record := by
    have hbreak : isWhiteSpace '\n' = true := by decide
    rw [line, rdropWhile_concat_pos _ _ _ hbreak, hfront,
      rdropWhile_concat_neg _ _ _ (by simp [hd])]
  have hsplit : splitInclusive (codec.line record ++ rest) =
      codec.line record :: splitInclusive rest := by
    rw [line, append_assoc, singleton_append, splitInclusive_append h.oneLine]
  have hlast : (codec.line record).getLast? = some '\n' := by simp [line]
  rw [hsplit, readLines, hblank, hlast, htrim, h.decode]
  simp

variable {records : List α}

theorem readLines_text (h : ∀ record ∈ records, codec.Reads record) (rest : List Char) :
    codec.readLines (splitInclusive (codec.text records ++ rest)) =
      (records ++ (codec.readLines (splitInclusive rest)).1,
        (codec.write records).size + (codec.readLines (splitInclusive rest)).2) := by
  induction records with
  | nil => simp [write, bytes_eq]
  | cons record records ih =>
    have hcons : codec.text (record :: records) = codec.line record ++ codec.text records := by
      simp [text]
    rw [forall_mem_cons] at h
    rw [hcons, append_assoc, readLines_line h.1, ih h.2]
    simp [write, hcons, bytes_eq, Nat.add_assoc]

/-- **Whole lines** are read back. -/
theorem read_write (h : ∀ record ∈ records, codec.Reads record) :
    codec.read (codec.write records) = (records, (codec.write records).size) := by
  have hread := readLines_text h []
  rw [append_nil] at hread
  rw [write, read_bytes, hread]
  simp [splitInclusive, readLines, write]

/-! ## Reading lines that were cut -/

theorem readLines_cut {record : α} (h : codec.Reads record) {tail : List Char}
    (hfront : tail <+: codec.line record) (hcut : tail ≠ codec.line record) :
    codec.readLines (splitInclusive tail) = ([], 0) := by
  obtain ⟨c, text, htext, hc⟩ := h.starts
  have hfront : tail <+: codec.encode record :=
    (prefix_concat_iff.mp hfront).resolve_left hcut
  have hbreak : '\n' ∉ tail := fun hmem => h.oneLine (hfront.subset hmem)
  cases tail with
  | nil => rfl
  | cons d tail =>
    have hd : d = c := by
      rw [htext] at hfront
      exact (cons_prefix_cons.mp hfront).1
    have hlast : (d :: tail).getLast? ≠ some '\n' := fun hlast =>
      hbreak (mem_of_getLast? hlast)
    have hblank : (d :: tail).all isWhiteSpace = false := by simp [hd, hc]
    rw [splitInclusive_of_notMem hbreak (by simp), readLines, hblank, if_neg (by simp),
      if_pos hlast]

variable (codec) in
/-- The records whose lines fit into some bytes, from the first one on. -/
def fitting : Nat → List α → List α
  | _, [] => []
  | n, record :: records =>
    if (bytes (codec.line record)).size ≤ n then
      record :: fitting (n - (bytes (codec.line record)).size) records
    else []

theorem fitting_prefix (n : Nat) (records : List α) : codec.fitting n records <+: records := by
  induction records generalizing n with
  | nil => exact prefix_rfl
  | cons record records ih =>
    unfold fitting
    split
    · exact (cons_prefix_cons).mpr ⟨rfl, ih _⟩
    · exact nil_prefix

theorem size_write_cons (record : α) (records : List α) :
    (codec.write (record :: records)).size =
      (bytes (codec.line record)).size + (codec.write records).size := by
  have hcons : codec.text (record :: records) = codec.line record ++ codec.text records := by
    simp [text]
  simp [write, hcons, bytes_eq]

/-- No more fits into more bytes than the lines take. -/
theorem fitting_min (n : Nat) (records : List α) :
    codec.fitting (min n (codec.write records).size) records = codec.fitting n records := by
  induction records generalizing n with
  | nil => rfl
  | cons record records ih =>
    rw [size_write_cons]
    unfold fitting
    by_cases hfits : (bytes (codec.line record)).size ≤ n
    · have hmin : min n ((bytes (codec.line record)).size + (codec.write records).size) -
          (bytes (codec.line record)).size =
            min (n - (bytes (codec.line record)).size) (codec.write records).size := by omega
      rw [if_pos hfits, if_pos (by omega), hmin, ih]
    · rw [if_neg hfits, if_neg (by omega)]

theorem fitting_of_size_le {n : Nat} (h : (codec.write records).size ≤ n) :
    codec.fitting n records = records := by
  induction records generalizing n with
  | nil => rfl
  | cons record records ih =>
    rw [size_write_cons] at h
    rw [fitting, if_pos (by omega), ih (by omega)]

theorem size_fitting_le (n : Nat) (records : List α) :
    (codec.write (codec.fitting n records)).size ≤ n := by
  induction records generalizing n with
  | nil => simp [fitting, write, bytes_eq]
  | cons record records ih =>
    unfold fitting
    split
    · rename_i hfits
      have htail := ih (n - (bytes (codec.line record)).size)
      rw [size_write_cons]
      omega
    · simp [write, bytes_eq]

/-- Of lines behind others, those fit that fit into what the others leave. -/
theorem fitting_append (records more : List α) (n : Nat) :
    codec.fitting ((codec.write records).size + n) (records ++ more) =
      records ++ codec.fitting n more := by
  induction records generalizing n with
  | nil => simp [write, bytes_eq]
  | cons record records ih =>
    rw [size_write_cons, cons_append, fitting, if_pos (by omega), cons_append, ← ih]
    congr 2
    omega

theorem readLines_front (h : ∀ record ∈ records, codec.Reads record) {front : List Char}
    (hfront : front <+: codec.text records) :
    codec.readLines (splitInclusive front) =
      (codec.fitting (bytes front).size records,
        (codec.write (codec.fitting (bytes front).size records)).size) := by
  induction records generalizing front with
  | nil =>
    have hnil : front = [] := by simpa using hfront
    simp [hnil, splitInclusive, readLines, fitting, write, bytes_eq]
  | cons record records ih =>
    have hcons : codec.text (record :: records) = codec.line record ++ codec.text records := by
      simp [text]
    rw [forall_mem_cons] at h
    rw [hcons] at hfront
    by_cases hline : codec.line record <+: front
    · obtain ⟨rest, rfl⟩ := hline
      have hsize : (bytes (codec.line record ++ rest)).size =
          (bytes (codec.line record)).size + (bytes rest).size := by simp [bytes_eq]
      rw [readLines_line h.1, ih h.2 ((prefix_append_right_inj _).mp hfront), hsize, fitting,
        if_pos (by omega), Nat.add_sub_cancel_left, size_write_cons]
    · have hcut : front <+: codec.line record :=
        ( prefix_or_prefix_of_prefix hfront (prefix_append _ _)).resolve_right hline
      have hne : front ≠ codec.line record := fun heq => hline (heq ▸ prefix_rfl)
      have hlt := size_lt_of_front hcut hne
      rw [readLines_cut h.1 hcut hne, fitting, if_neg (by omega)]
      simp [write, bytes_eq]

/-- **The first bytes of some lines**: where no character is cut, the lines that fit are read
back. -/
theorem read_front (h : ∀ record ∈ records, codec.Reads record) {n : Nat}
    (hvalid : ((codec.write records).extract 0 n).IsValidUTF8) :
    codec.read ((codec.write records).extract 0 n) =
      (codec.fitting n records, (codec.write (codec.fitting n records)).size) := by
  obtain ⟨front, hbytes⟩ := hvalid
  have hfront : front <+: codec.text records := by
    refine isPrefix_of_utf8Encode_append_eq_utf8Encode
      ((codec.write records).extract n (codec.write records).size) ?_
    rw [← hbytes, ByteArray.extract_append_extract, Nat.zero_min, extract_of_size_le (by omega),
      write, bytes_eq]
  have hsize : (bytes front).size = min n (codec.write records).size := by
    rw [bytes_eq, ← hbytes, ByteArray.size_extract]
    omega
  rw [hbytes, ← bytes_eq, read_bytes, readLines_front h hfront, hsize, fitting_min]

end LineCodec

end Aiwatcher.Library
