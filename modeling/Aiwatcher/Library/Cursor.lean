import Mathlib.Data.Int.Order.Basic
import Mathlib.Order.Lattice
import Mathlib.Data.List.Basic

/-!
# Aiwatcher.Library.Cursor

Reading an ascending list page by page, each page from the last key read.  The list may be a
range of a longer one, of which only the part outside the range changes between two pages.
What is read is cut into chunks of whole pages.
-/

namespace Aiwatcher.Library

open List

variable {α κ : Type} [LinearOrder κ] (key : α → κ)

/-- The keys go up, and none is there twice. -/
def Ascending (l : List α) : Prop := l.Pairwise fun a b => key a < key b

/-- The key a reader of the first `n` elements has reached. -/
def cursorAt (start : κ) (l : List α) (n : Nat) : κ :=
  ((l.take n).getLast?.map key).getD start

variable {key} {l trail : List α} {start top : κ}

omit [LinearOrder κ] in
theorem cursorAt_zero : cursorAt key start l 0 = start := by
  simp [cursorAt]

omit [LinearOrder κ] in
theorem cursorAt_congr {m n : Nat} (h : l.take m = l.take n) :
    cursorAt key start l m = cursorAt key start l n := by
  rw [cursorAt, cursorAt, h]

omit [LinearOrder κ] in
/-- A reader has reached the last element of what was read last. -/
theorem cursorAt_add {n m : Nat} {last : α} (h : ((l.drop n).take m).getLast? = some last) :
    cursorAt key start l (n + m) = key last := by
  rw [cursorAt, take_add, getLast?_append, h]
  rfl

section

variable (h : Ascending key l)

include h

/-- Nothing that was read is past the cursor, and all the rest is. -/
theorem cursorAt_le_of_mem_take {n : Nat} {a : α} (ha : a ∈ l.take n) :
    key a ≤ cursorAt key start l n := by
  have hup : Ascending key (l.take n) := List.Pairwise.sublist (take_sublist n l) h
  unfold cursorAt
  generalize l.take n = front at ha hup
  obtain ⟨init, last, rfl⟩ :=
    (eq_nil_or_concat' front).resolve_left (ne_nil_of_mem ha)
  rw [getLast?_concat, Option.map_some, Option.getD_some]
  rcases mem_append.mp ha with h | h
  · exact (pairwise_append.mp hup).2.2 a h last (by simp) |>.le
  · rw [mem_singleton.mp h]

theorem cursorAt_lt_of_mem_drop (hstart : ∀ a ∈ l, start < key a) {n : Nat} {a : α}
    (ha : a ∈ l.drop n) : cursorAt key start l n < key a := by
  unfold cursorAt
  cases hlast : (l.take n).getLast? with
  | none => exact hstart a (mem_of_mem_drop ha)
  | some last =>
    have hsplit : Ascending key (l.take n ++ l.drop n) := by
      rw [take_append_drop]
      exact h
    exact (pairwise_append.mp hsplit).2.2 last (mem_of_getLast? hlast) a ha

theorem filter_after (hstart : ∀ a ∈ l, start < key a) (n : Nat) :
    (l.filter fun a => cursorAt key start l n < key a) = l.drop n := by
  conv_lhs => rw [← take_append_drop n l]
  rw [filter_append, filter_eq_nil_iff.mpr, filter_eq_self.mpr, nil_append]
  · rw [take_append_drop]
    intro a ha
    simpa using cursorAt_lt_of_mem_drop h hstart ha
  · rw [take_append_drop]
    intro a ha
    simpa using cursorAt_le_of_mem_take h ha

theorem Ascending.split (top : κ) :
    l = (l.filter fun a => key a ≤ top) ++ l.filter fun a => top < key a := by
  induction l with
  | nil => rfl
  | cons a l ih =>
    obtain ⟨ha, hl⟩ := pairwise_cons.mp h
    by_cases hle : key a ≤ top
    · have hlt : ¬top < key a := not_lt.mpr hle
      rw [filter_cons_of_pos (by simpa using hle),
        filter_cons_of_neg (by simpa using hlt), cons_append, ← ih hl]
    · have hlt : top < key a := not_le.mp hle
      have hnone : (l.filter fun b => key b ≤ top) = [] := by
        rw [filter_eq_nil_iff]
        intro b hb
        simpa using hlt.trans (ha b hb)
      have hall : (l.filter fun b => top < key b) = l := by
        rw [filter_eq_self]
        intro b hb
        simpa using hlt.trans (ha b hb)
      rw [filter_cons_of_neg (by simpa using hle),
        filter_cons_of_pos (by simpa using hlt), hnone, hall, nil_append]

end

/-- **A page**: what one read from the cursor takes of the range is the next page of it. -/
theorem page_eq (htrail : Ascending key trail)
    (hrange : (trail.filter fun a => start < key a && key a ≤ top) = l) (n limit : Nat) :
    (((trail.filter fun a => cursorAt key start l n < key a).take limit).filter
      fun a => key a ≤ top) = (l.drop n).take limit := by
  have hl : Ascending key l := hrange ▸ List.Pairwise.sublist filter_sublist htrail
  have hmem : ∀ a ∈ l, start < key a ∧ key a ≤ top := by
    intro a ha
    rw [← hrange, mem_filter] at ha
    simpa using ha.2
  have hstart : start ≤ cursorAt key start l n := by
    unfold cursorAt
    cases hlast : (l.take n).getLast? with
    | none => exact le_refl _
    | some last => exact (hmem last (mem_of_mem_take (mem_of_getLast? hlast))).1.le
  have hafter := filter_after hl (fun a ha => (hmem a ha).1) n
  generalize cursorAt key start l n = cursor at hstart hafter ⊢
  have hrest : Ascending key (trail.filter fun a => cursor < key a) :=
    List.Pairwise.sublist filter_sublist htrail
  have hin : ((trail.filter fun a => cursor < key a).filter fun a => key a ≤ top) = l.drop n := by
    rw [← hafter, ← hrange, filter_filter, filter_filter]
    refine filter_congr fun a _ => ?_
    by_cases h : cursor < key a
    · have hlt : start < key a := lt_of_le_of_lt hstart h
      simp [h, hlt]
    · simp [h]
  rw [hrest.split top, hin, take_append, filter_append, filter_eq_self.mpr,
    filter_eq_nil_iff.mpr, append_nil]
  · intro a ha
    have h := (mem_filter.mp (mem_of_mem_take ha)).2
    simpa using h
  · intro a ha
    have h := hmem a (mem_of_mem_drop (mem_of_mem_take ha))
    simpa using h.2

/-- Numbers that go up within a range are no more than the range has. -/
theorem length_le_of_ascending {number : α → Int} {a b : Int} {l : List α}
    (h : Ascending number l) (hrange : ∀ x ∈ l, a < number x ∧ number x ≤ b) :
    l.length ≤ (b - a).toNat := by
  induction l generalizing a with
  | nil => simp
  | cons x l ih =>
    obtain ⟨hx, hl⟩ := pairwise_cons.mp h
    rw [forall_mem_cons] at hrange
    have hrest := @ih (number x) hl fun y hy => ⟨hx y hy, (hrange.2 y hy).2⟩
    rw [length_cons]
    omega

/-! ## Chunks -/

/-- The `i`-th chunk of a list, all but the last of them of one width. -/
def chunk (width : Nat) (l : List α) (i : Nat) : List α := (l.drop (i * width)).take width

/-- How many chunks a list has. -/
def chunkCount (width : Nat) (l : List α) : Nat := (l.length + width - 1) / width

theorem take_succ_chunk (width : Nat) (l : List α) (k : Nat) :
    l.take ((k + 1) * width) = l.take (k * width) ++ chunk width l k := by
  rw [Nat.succ_mul, take_add, chunk]

theorem take_add_length_chunk (width : Nat) (l : List α) (k : Nat) :
    l.take (k * width + (chunk width l k).length) = l.take ((k + 1) * width) := by
  have hfront : chunk width l k <+: l.drop (k * width) := take_prefix _ _
  rw [take_succ_chunk, take_add, ← prefix_iff_eq_take.mp hfront]

theorem flatMap_chunk (width : Nat) (l : List α) (k : Nat) :
    (List.range k).flatMap (chunk width l) = l.take (k * width) := by
  induction k with
  | zero => simp
  | succ k ih => rw [range_succ, flatMap_append, ih, take_succ_chunk]; simp

theorem eq_chunkCount {width : Nat} (hwidth : 0 < width) {l : List α} {k : Nat}
    (hall : l.length ≤ k * width) (hfull : ∀ i < k, i * width < l.length) :
    k = chunkCount width l := by
  refine Nat.le_antisymm ?_ ?_
  · rw [chunkCount, Nat.le_div_iff_mul_le hwidth]
    cases k with
    | zero => simp
    | succ k =>
      have h := hfull k (Nat.lt_succ_self k)
      rw [Nat.succ_mul]
      omega
  · rw [chunkCount, Nat.div_le_iff_le_mul_add_pred hwidth]
    rw [Nat.mul_comm] at hall
    omega

/-- The whole pages that reach a number of rows. -/
def wholePages (page rows : Nat) : Nat := (max rows 1 + page - 1) / page * page

theorem wholePages_spec {page : Nat} (hpage : 0 < page) (rows : Nat) :
    max rows 1 ≤ wholePages page rows ∧ page ∣ wholePages page rows ∧
      wholePages page rows < max rows 1 + page := by
  have hdiv := Nat.div_add_mod (max rows 1 + page - 1) page
  have hmod := Nat.mod_lt (max rows 1 + page - 1) hpage
  rw [Nat.mul_comm] at hdiv
  refine ⟨?_, Nat.dvd_mul_left _ _, ?_⟩
  · unfold wholePages
    omega
  · unfold wholePages
    omega

theorem eq_wholePages {page rows read : Nat} (hpage : 0 < page) (hdvd : page ∣ read)
    (hbefore : read < max rows 1) (hreached : rows ≤ read + page) :
    read + page = wholePages page rows := by
  obtain ⟨hle, ⟨c, hc⟩, hlt⟩ := wholePages_spec hpage rows
  obtain ⟨d, rfl⟩ := hdvd
  rw [hc] at hle hlt ⊢
  have h₁ : page * d < page * c := by omega
  have h₂ : page * c < page * (d + 2) := by
    rw [Nat.mul_add]
    omega
  have hdc := Nat.lt_of_mul_lt_mul_left h₁
  have hcd := Nat.lt_of_mul_lt_mul_left h₂
  have heq : c = d + 1 := by omega
  rw [heq, Nat.mul_succ]

/-! ## Windows -/

/-- The elements a page of a list shows. -/
def window (offset limit : Nat) (l : List α) : List α := (l.drop offset).take limit

/-- One more element shows where the page begins before it and is not full. -/
theorem window_concat (offset limit : Nat) (l : List α) (a : α) :
    window offset limit (l ++ [a]) =
      if offset ≤ l.length ∧ (window offset limit l).length < limit then
        window offset limit l ++ [a]
      else window offset limit l := by
  unfold window
  by_cases hoffset : offset ≤ l.length
  · rw [drop_append_of_le_length hoffset]
    by_cases hfull : (l.drop offset).length < limit
    · rw [if_pos, take_of_length_le (by simp at hfull ⊢; omega), take_of_length_le (by omega)]
      exact ⟨hoffset, by rw [length_take]; omega⟩
    · rw [if_neg, take_append_of_le_length (by omega)]
      rw [length_take]
      omega
  · rw [if_neg fun h => hoffset h.1, drop_of_length_le (by simp; omega),
      drop_of_length_le (by omega)]

/-- A full page shows nothing of what comes after. -/
theorem window_append_of_full {offset limit : Nat} {l : List α}
    (h : limit ≤ (window offset limit l).length) (more : List α) :
    window offset limit (l ++ more) = window offset limit l := by
  unfold window at h ⊢
  rw [length_take, length_drop] at h
  by_cases hlimit : limit = 0
  · rw [hlimit, take_zero, take_zero]
  · rw [drop_append_of_le_length (by omega), take_append_of_le_length]
    rw [length_drop]
    omega

/-- Nothing shows of what lies before the page. -/
theorem window_of_length_le {offset limit : Nat} {l : List α} (h : l.length ≤ offset) :
    window offset limit l = [] := by
  rw [window, drop_of_length_le h, take_nil]

end Aiwatcher.Library
