import Mathlib.Data.List.Nodup
import Mathlib.Data.List.Perm.Subperm
import Mathlib.Order.Lattice
import Aiwatcher.Library.Table

/-!
# Aiwatcher.Library.Shelf

A short list of a table's rows: each row that is touched is put at its front, and what does not fit
falls off its end.  Sorting the whole table by time and cutting that off comes to the same rows, as
long as what falls off is older than what stays.

* `Shelf` — what the list is of the table;
* `Shelf.put` — a row is touched;
* `Shelf.sorted_perm`, `Shelf.sorted_head` — what sorting comes to.
-/

namespace Aiwatcher.Library

open List

variable {κ α τ : Type} [Ord κ] [Std.TransOrd κ] [Std.LawfulEqOrd κ] [DecidableEq κ]
  [LinearOrder τ] {key : α → κ} {time : α → τ} {cap : Nat}
  {table : Std.ExtTreeMap κ α compare} {shelf rows : List α}

/-- The list holds as many rows of the table as it may, and none that is older than one it lacks. -/
structure Shelf (key : α → κ) (time : α → τ) (cap : Nat) (table : Std.ExtTreeMap κ α compare)
    (shelf : List α) : Prop where
  keyed : ∀ (k : κ) row, table[k]? = some row → key row = k
  nodup : (shelf.map key).Nodup
  held : ∀ row ∈ shelf, table[key row]? = some row
  length : shelf.length = min cap table.size
  newer : ∀ row, table[key row]? = some row → row ∉ shelf → ∀ kept ∈ shelf, time row < time kept

/-- What stays beside a row that is put at the front. -/
def keptBeside (key : α → κ) (cap : Nat) (shelf : List α) (row : α) : List α :=
  (shelf.filter fun other => key other ≠ key row).take (cap - 1)

/-- What is left out when one of the entries, by key and time, is put at the front is older than
that and than what stays. -/
def Yields (cap : Nat) (index stored : List (κ × τ)) (row : κ × τ) : Prop :=
  0 < cap → ∀ other ∈ stored, other.1 ≠ row.1 →
    other ∉ (index.filter fun entry => entry.1 ≠ row.1).take (cap - 1) →
      other.2 < row.2 ∧
      ∀ kept ∈ (index.filter fun entry => entry.1 ≠ row.1).take (cap - 1), other.2 < kept.2

instance (cap : Nat) (index stored : List (κ × τ)) (row : κ × τ) :
    Decidable (Yields cap index stored row) :=
  inferInstanceAs (Decidable (_ → ∀ other ∈ stored, _ → _ → _ ∧ ∀ kept ∈ List.take _ _, _))

namespace Shelf

omit [Ord κ] [Std.TransOrd κ] [Std.LawfulEqOrd κ] in
theorem length_filter_ne (h : (shelf.map key).Nodup) (k : κ) :
    (shelf.filter fun other => key other ≠ k).length =
      if k ∈ shelf.map key then shelf.length - 1 else shelf.length := by
  have herase : ((shelf.map key).erase k).length = _ := length_erase
  rw [h.erase_eq_filter, filter_map, length_map, length_map] at herase
  rw [← herase]
  congr 2
  funext other
  rw [Function.comp_apply, bne, Bool.beq_eq_decide_eq, decide_not]

omit [DecidableEq κ] in
/-- A list as long as the table lacks none of its rows. -/
theorem mem_of_size_le (h : Shelf key time cap table shelf) (hlength : table.size ≤ shelf.length)
    {k : κ} (hk : k ∈ table) : k ∈ shelf.map key := by
  have hsub : shelf.map key ⊆ table.keys := by
    intro other hother
    obtain ⟨row, hrow, rfl⟩ := mem_map.mp hother
    rw [Std.ExtTreeMap.mem_keys, Std.ExtTreeMap.mem_iff_isSome_getElem?, h.held row hrow]
    rfl
  have hperm := (h.nodup.subperm hsub).perm_of_length_le (by
    rw [Std.ExtTreeMap.length_keys, length_map]
    exact hlength)
  exact hperm.mem_iff.mpr (Std.ExtTreeMap.mem_keys.mpr hk)

omit [Ord κ] [Std.TransOrd κ] [Std.LawfulEqOrd κ] [LinearOrder τ] in
theorem beside_eq (shelf : List α) (row : α) :
    ((shelf.map fun a => (key a, time a)).filter fun entry => entry.1 ≠ key row).take (cap - 1) =
      (keptBeside key cap shelf row).map fun a => (key a, time a) := by
  rw [keptBeside, filter_map, map_take]
  rfl

/-- **A row is touched**, and whatever is left out then is older than what is kept. -/
theorem put (h : Shelf key time cap table shelf) (row : α) {stored : List (κ × τ)}
    (hstored : ∀ other, table[key other]? = some other → (key other, time other) ∈ stored)
    (hyields : Yields cap (shelf.map fun a => (key a, time a)) stored (key row, time row)) :
    Shelf key time cap (table.insert (key row) row)
      ((row :: shelf.filter fun other => key other ≠ key row).take cap) := by
  have hkeyed : ∀ (k : κ) other, (table.insert (key row) row)[k]? = some other →
      key other = k := Table.forall_insert rfl h.keyed
  cases cap with
  | zero => exact ⟨hkeyed, by simp, by simp, by simp, by simp⟩
  | succ cap =>
    have hkept : ∀ other ∈ keptBeside key (cap + 1) shelf row,
        other ∈ shelf ∧ key other ≠ key row := by
      intro other hother
      simpa using mem_filter.mp (mem_of_mem_take hother)
    change Shelf key time (cap + 1) _ (row :: keptBeside key (cap + 1) shelf row)
    refine ⟨hkeyed, ?_, ?_, ?_, ?_⟩
    · rw [map_cons, nodup_cons]
      refine ⟨fun hmem => ?_, h.nodup.sublist
        (((take_sublist _ _).trans filter_sublist).map key)⟩
      obtain ⟨other, hother, heq⟩ := mem_map.mp hmem
      exact (hkept other hother).2 heq
    · intro other hother
      rw [Table.getElem?_insert]
      rcases mem_cons.mp hother with rfl | hother
      · exact if_pos rfl
      · rw [if_neg (Ne.symm (hkept other hother).2)]
        exact h.held other (hkept other hother).1
    · rw [length_cons, keptBeside, length_take, length_filter_ne h.nodup,
        Std.ExtTreeMap.size_insert]
      have hlength := h.length
      by_cases hshelved : key row ∈ shelf.map key
      · obtain ⟨other, hother, heq⟩ := mem_map.mp hshelved
        have htable : table.contains (key row) := by
          rw [← heq, Std.ExtTreeMap.contains_eq_isSome_getElem?, h.held other hother]
          rfl
        have hpos := length_pos_of_mem hother
        rw [if_pos hshelved, if_pos htable]
        omega
      · rw [if_neg hshelved]
        split
        · rename_i htable
          have hlack : shelf.length < table.size := Nat.lt_of_not_le fun hle =>
            hshelved (h.mem_of_size_le hle (Std.ExtTreeMap.contains_iff_mem.mp htable))
          omega
        · omega
    · intro other hother hmem kept hkeeps
      rw [Table.getElem?_insert] at hother
      have hne : key other ≠ key row := by
        intro heq
        rw [if_pos heq.symm] at hother
        cases hother
        exact hmem mem_cons_self
      rw [if_neg hne.symm] at hother
      have hyields := hyields (Nat.succ_pos cap) _ (hstored other hother) hne
      dsimp only at hyields
      rw [beside_eq] at hyields
      obtain ⟨hrow, hrest⟩ := hyields fun hbeside => by
        obtain ⟨same, hsame, heq⟩ := mem_map.mp hbeside
        have hheld := h.held same (hkept same hsame).1
        rw [(Prod.mk.inj heq).1, hother] at hheld
        exact hmem (mem_cons_of_mem _ (Option.some.inj hheld ▸ hsame))
      rcases mem_cons.mp hkeeps with rfl | hkeeps
      · exact hrow
      · exact hrest _ (mem_map.mpr ⟨kept, hkeeps, rfl⟩)

/-- **A row is new and passes by**: the list is full, and all in it are newer. -/
theorem pass (h : Shelf key time cap table shelf) {row : α} (hnew : table[key row]? = none)
    (hfull : shelf.length = cap) (holder : ∀ kept ∈ shelf, time row < time kept) :
    Shelf key time cap (table.insert (key row) row) shelf := by
  refine ⟨Table.forall_insert rfl h.keyed, h.nodup, fun other hother => ?_, ?_,
    fun other hother hmem kept hkept => ?_⟩
  · rw [Table.getElem?_insert, if_neg, h.held other hother]
    intro heq
    rw [heq, h.held other hother] at hnew
    cases hnew
  · rw [Std.ExtTreeMap.size_insert, Std.ExtTreeMap.contains_eq_isSome_getElem?, hnew]
    have hlength := h.length
    simp only [Option.isSome_none, Bool.false_eq_true, if_false]
    omega
  · obtain ⟨-, rfl⟩ | ⟨-, hother⟩ := Table.of_insert hother
    · exact holder kept hkept
    · exact h.newer other hother hmem kept hkept

omit [Std.LawfulEqOrd κ] [DecidableEq κ] in
theorem perm (h : Shelf key time cap table shelf) {shelf' : List α} (hperm : shelf'.Perm shelf) :
    Shelf key time cap table shelf' where
  keyed := h.keyed
  nodup := (hperm.map key).nodup_iff.mpr h.nodup
  held row hrow := h.held row (hperm.mem_iff.mp hrow)
  length := hperm.length_eq.trans h.length
  newer row hrow hmem kept hkept :=
    h.newer row hrow (fun hout => hmem (hperm.mem_iff.mpr hout)) kept (hperm.mem_iff.mp hkept)

/-! ## Sorting -/

section

variable (h : Shelf key time cap table shelf) (hrows : (rows.map key).Perm table.keys)
  (hheld : ∀ row ∈ rows, table[key row]? = some row) {le : α → α → Bool}
  (hle : ∀ a b, le a b = true ↔ time b ≤ time a)

omit [DecidableEq κ] in
include hrows hheld in
theorem mem_rows {row : α} (hrow : table[key row]? = some row) : row ∈ rows := by
  have hkey : key row ∈ table.keys := by
    rw [Std.ExtTreeMap.mem_keys, Std.ExtTreeMap.mem_iff_isSome_getElem?, hrow]
    rfl
  obtain ⟨other, hother, heq⟩ := mem_map.mp (hrows.mem_iff.mpr hkey)
  have hsame := hheld other hother
  rw [heq, hrow] at hsame
  rwa [Option.some.inj hsame]

include hle in
theorem sorted (rows : List α) : (rows.mergeSort le).Pairwise fun a b => time b ≤ time a := by
  refine (pairwise_mergeSort (fun a b c hab hbc => ?_) (fun a b => ?_) rows).imp
    fun hab => (hle _ _).mp hab
  · exact (hle a c).mpr (le_trans ((hle b c).mp hbc) ((hle a b).mp hab))
  · rw [Bool.or_eq_true, hle, hle]
    exact le_total _ _

omit [DecidableEq κ] in
include h hrows hheld hle in
/-- **The sorted table's front is the list**, but for the order. -/
theorem sorted_perm : ((rows.mergeSort le).take cap).Perm shelf := by
  have hnodup : rows.Nodup := List.Nodup.of_map key (hrows.nodup_iff.mpr table.nodup_keys)
  have hsize : rows.length = table.size := by
    rw [← length_map key, hrows.length_eq, Std.ExtTreeMap.length_keys]
  have htake : ((rows.mergeSort le).take cap).length = shelf.length := by
    rw [length_take, length_mergeSort, hsize, h.length]
  have hstored : ∀ row, row ∈ rows.mergeSort le ↔ table[key row]? = some row := fun row =>
    mem_mergeSort.trans ⟨hheld row, mem_rows hrows hheld⟩
  -- the front is of the list's length, so one row out of place leaves another one in its stead
  by_contra hne
  have hother : ∃ other ∈ (rows.mergeSort le).take cap, other ∉ shelf := by
    by_contra hall
    push Not at hall
    exact hne ((((mergeSort_perm rows le).nodup_iff.mpr hnodup).sublist
      (take_sublist _ _) |>.subperm hall).perm_of_length_le (Nat.le_of_eq htake.symm))
  have hlacks : ∃ row ∈ shelf, row ∉ (rows.mergeSort le).take cap := by
    by_contra hall
    push Not at hall
    exact hne (((List.Nodup.of_map key h.nodup).subperm hall).perm_of_length_le
      (Nat.le_of_eq htake)).symm
  obtain ⟨other, hother, hout⟩ := hother
  obtain ⟨row, hrow, hbehind⟩ := hlacks
  have holder := h.newer other ((hstored other).mp (mem_of_mem_take hother)) hout row hrow
  have hdrop : row ∈ (rows.mergeSort le).drop cap := by
    have hrow' := (hstored row).mpr (h.held row hrow)
    rw [← take_append_drop cap (rows.mergeSort le), mem_append] at hrow'
    exact hrow'.resolve_left hbehind
  have hsorted := sorted hle rows
  rw [← take_append_drop cap (rows.mergeSort le), pairwise_append] at hsorted
  exact absurd (hsorted.2.2 other hother row hdrop) (not_le.mpr holder)

omit [Ord κ] [Std.TransOrd κ] [Std.LawfulEqOrd κ] [DecidableEq κ] in
include hle in
theorem sorted_head {first : α} (hfirst : first ∈ rows)
    (hnewest : ∀ other ∈ rows, other ≠ first → time other < time first) :
    (rows.mergeSort le).head? = some first := by
  have hsorted := sorted hle rows
  cases hrows : rows.mergeSort le with
  | nil => exact absurd (hrows ▸ mem_mergeSort.mpr hfirst) not_mem_nil
  | cons head rest =>
    rw [hrows, pairwise_cons] at hsorted
    rw [head?_cons, Option.some.injEq]
    have hmem : first ∈ head :: rest := hrows ▸ mem_mergeSort.mpr hfirst
    by_contra hne
    rcases mem_cons.mp hmem with heq | hrest
    · exact hne heq.symm
    · have hhead : head ∈ rows := mem_mergeSort.mp (hrows ▸ mem_cons_self)
      exact absurd (hsorted.1 first hrest) (not_le.mpr (hnewest head hhead hne))

end

end Shelf

end Aiwatcher.Library
