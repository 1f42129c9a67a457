import Mathlib.Data.List.Basic
import Mathlib.Data.List.Induction

/-!
# Aiwatcher.Library.Table

Tables written by batches: a row is put, edited in place or dropped, each under its
key.  A batch leaves the rows of other keys alone (`getElem?_applyAll_of_forall_ne`),
and whether a key has a row afterwards depends on the writes to that key only
(`isSome_applyAll`).

Before the batches, what one key holds after a single row is put or dropped, after many keys are
dropped at once, and after the rows of some keys are kept.
-/

namespace Aiwatcher.Library

open List Std

/-! ## Single keys -/

namespace Table

/-- Keys that one field and then another compares are equal where both fields are. -/
theorem lawfulEq_compareLex {κ β γ : Type} [Ord β] [Std.LawfulEqOrd β] [Ord γ]
    [Std.LawfulEqOrd γ] {f : κ → β} {g : κ → γ} (hext : ∀ a b, f a = f b → g a = g b → a = b) :
    Std.LawfulEqCmp (compareLex (compareOn f) (compareOn g)) where
  eq_of_compare {a b} h := by
    rw [compareLex_eq_eq] at h
    exact hext a b (Std.LawfulEqOrd.eq_of_compare h.1) (Std.LawfulEqOrd.eq_of_compare h.2)

variable {κ β : Type} [Ord κ] [Std.TransOrd κ] [Std.LawfulEqOrd κ] [DecidableEq κ]

variable (table : Std.ExtTreeMap κ β compare)

theorem getElem?_insert (key k : κ) (row : β) :
    (table.insert key row)[k]? = if key = k then some row else table[k]? := by
  rw [ExtTreeMap.getElem?_insert]
  simp only [Std.LawfulEqCmp.compare_eq_iff_eq]

theorem getElem?_erase (key k : κ) :
    (table.erase key)[k]? = if key = k then none else table[k]? := by
  rw [ExtTreeMap.getElem?_erase]
  simp only [Std.LawfulEqCmp.compare_eq_iff_eq]

section

variable {table} {key k : κ} {row other : β}

theorem of_insert (h : (table.insert key row)[k]? = some other) :
    key = k ∧ row = other ∨ key ≠ k ∧ table[k]? = some other := by
  rw [getElem?_insert] at h
  split at h <;> simp_all

theorem forall_insert {P : κ → β → Prop} (hrow : P key row)
    (h : ∀ k other, table[k]? = some other → P k other) :
    ∀ k other, (table.insert key row)[k]? = some other → P k other := by
  intro k other hother
  obtain ⟨rfl, rfl⟩ | ⟨-, hother⟩ := of_insert hother
  · exact hrow
  · exact h k other hother

theorem of_erase (h : (table.erase key)[k]? = some other) : key ≠ k ∧ table[k]? = some other := by
  rw [getElem?_erase] at h
  split at h <;> simp_all

omit [Std.LawfulEqOrd κ] [DecidableEq κ] in
theorem mem_of_getElem? (h : table[k]? = some row) : k ∈ table :=
  ExtTreeMap.mem_iff_isSome_getElem?.mpr (by rw [h]; rfl)

end

theorem getElem?_modify (key k : κ) (change : β → β) :
    (table.modify key change)[k]? = if key = k then table[k]?.map change else table[k]? := by
  rw [ExtTreeMap.getElem?_modify]
  simp only [Std.LawfulEqCmp.compare_eq_iff_eq]
  split
  · rename_i heq
    rw [heq]
  · rfl

theorem getElem?_foldl_insert {rows : List (κ × β)} (h : (rows.map Prod.fst).Nodup)
    (table : Std.ExtTreeMap κ β compare) (k : κ) (row : β) :
    (rows.foldl (fun table row => table.insert row.1 row.2) table)[k]? = some row ↔
      (k, row) ∈ rows ∨ (k ∉ rows.map Prod.fst ∧ table[k]? = some row) := by
  induction rows generalizing table with
  | nil => simp
  | cons first rows ih =>
    obtain ⟨key, value⟩ := first
    rw [map_cons, nodup_cons] at h
    rw [foldl_cons, ih h.2, getElem?_insert]
    by_cases hkey : key = k
    · subst hkey
      have hnew : (key, row) ∉ rows := fun hmem =>
        h.1 (mem_map.mpr ⟨(key, row), hmem, rfl⟩)
      simp [hnew, h.1, eq_comm]
    · simp [hkey, Ne.symm hkey]

theorem foldl_insert_of_perm {rows : List (κ × β)} {table : Std.ExtTreeMap κ β compare}
    (h : rows.Perm table.toList) :
    rows.foldl (fun table row => table.insert row.1 row.2) ∅ = table := by
  have hkeys : (rows.map Prod.fst).Nodup := by
    rw [(h.map Prod.fst).nodup_iff, ExtTreeMap.map_fst_toList_eq_keys]
    exact ExtTreeMap.nodup_keys
  apply ExtTreeMap.ext_getElem?
  intro k
  apply Option.ext
  intro row
  rw [getElem?_foldl_insert hkeys, h.mem_iff, ExtTreeMap.mem_toList_iff_getElem?_eq_some]
  simp

/-- A table without the rows of some keys. -/
def dropAll (table : Std.ExtTreeMap κ β compare) (keys : List κ) : Std.ExtTreeMap κ β compare :=
  keys.foldl (fun table key => table.erase key) table

theorem getElem?_dropAll (keys : List κ) (k : κ) :
    (dropAll table keys)[k]? = if k ∈ keys then none else table[k]? := by
  induction keys generalizing table with
  | nil => simp [dropAll]
  | cons key keys ih =>
    have hstep : dropAll table (key :: keys) = dropAll (table.erase key) keys := rfl
    rw [hstep, ih, getElem?_erase]
    by_cases hmem : k ∈ keys
    · simp [hmem]
    · by_cases hkey : key = k
      · simp [hkey]
      · have hne : ¬ k = key := fun h => hkey h.symm
        simp [hmem, hkey, hne]

omit [DecidableEq κ] in
theorem getElem?_filter (keep : κ → Bool) (k : κ) :
    (table.filter fun key _ => keep key)[k]? = if keep k then table[k]? else none := by
  rw [ExtTreeMap.getElem?_filter']
  cases table[k]? with
  | none => simp
  | some row => by_cases h : keep k <;> simp [h]

end Table

/-! ## Batches -/

/-- One write to a keyed table. -/
inductive Write (κ β : Type) where
  | put (key : κ) (row : β)
  | edit (key : κ) (change : β → β)
  | drop (key : κ)

namespace Write

variable {κ β : Type} [Ord κ] [Std.TransOrd κ] [Std.LawfulEqOrd κ]

def key : Write κ β → κ
  | put key _ | edit key _ | drop key => key

/-- Whether its key has a row after a write, from whether it had one. -/
def leaves : Write κ β → Bool → Bool
  | put .., _ => true
  | edit .., there => there
  | drop _, _ => false

def apply (table : Std.ExtTreeMap κ β compare) : Write κ β → Std.ExtTreeMap κ β compare
  | put key row => table.insert key row
  | edit key change => table.modify key change
  | drop key => table.erase key

/-- The writes of one batch, in order. -/
def applyAll (table : Std.ExtTreeMap κ β compare) (writes : List (Write κ β)) :
    Std.ExtTreeMap κ β compare :=
  writes.foldl apply table

variable {k : κ} {writes : List (Write κ β)}

theorem getElem?_apply_of_ne {w : Write κ β} (h : w.key ≠ k) (table : Std.ExtTreeMap κ β compare) :
    (apply table w)[k]? = table[k]? := by
  have hcmp : ¬ compare w.key k = .eq := fun heq => h (Std.LawfulEqOrd.eq_of_compare heq)
  cases w with
  | put key row => exact ExtTreeMap.getElem?_insert.trans (if_neg hcmp)
  | edit key change => exact ExtTreeMap.getElem?_modify.trans (if_neg hcmp)
  | drop key => exact ExtTreeMap.getElem?_erase.trans (if_neg hcmp)

theorem isSome_apply_key (table : Std.ExtTreeMap κ β compare) (w : Write κ β) :
    (apply table w)[w.key]?.isSome = w.leaves table[w.key]?.isSome := by
  cases w with
  | put key row => simp [apply, Write.key, leaves]
  | edit key change => simp [apply, Write.key, leaves]
  | drop key => simp [apply, Write.key, leaves]

/-- **Frame rule**: a batch leaves the rows it does not name alone. -/
theorem getElem?_applyAll_of_forall_ne (h : ∀ w ∈ writes, w.key ≠ k)
    (table : Std.ExtTreeMap κ β compare) : (applyAll table writes)[k]? = table[k]? := by
  induction writes generalizing table with
  | nil => rfl
  | cons w ws ih =>
    have hhead := getElem?_apply_of_ne (h w mem_cons_self) table
    have htail := ih (fun w' hw' => h w' (mem_cons_of_mem _ hw')) (apply table w)
    exact htail.trans hhead

theorem getElem?_apply_congr (w : Write κ β) {table other : Std.ExtTreeMap κ β compare}
    (h : other[k]? = table[k]?) : (apply other w)[k]? = (apply table w)[k]? := by
  cases w with
  | put key row => simp only [apply, ExtTreeMap.getElem?_insert, h]
  | edit key change =>
    simp only [apply, ExtTreeMap.getElem?_modify]
    split
    · rename_i heq
      rw [Std.LawfulEqOrd.eq_of_compare heq, h]
    · exact h
  | drop key => simp only [apply, ExtTreeMap.getElem?_erase, h]

/-- **Locality rule**: what a batch leaves under a key depends on that key only. -/
theorem getElem?_applyAll_congr (writes : List (Write κ β))
    {table other : Std.ExtTreeMap κ β compare} (h : other[k]? = table[k]?) :
    (applyAll other writes)[k]? = (applyAll table writes)[k]? := by
  induction writes generalizing table other with
  | nil => exact h
  | cons w ws ih => exact ih (getElem?_apply_congr w h)

/-- **Presence rule**: whether a key has a row is decided by the writes to it. -/
theorem isSome_applyAll [DecidableEq κ] (writes : List (Write κ β))
    (table : Std.ExtTreeMap κ β compare) (k : κ) :
    (applyAll table writes)[k]?.isSome =
      writes.foldl (fun there w => if w.key = k then w.leaves there else there)
        table[k]?.isSome := by
  induction writes generalizing table with
  | nil => rfl
  | cons w ws ih =>
    show (applyAll (apply table w) ws)[k]?.isSome = _
    rw [ih, foldl_cons]
    congr 1
    split
    · rename_i hk
      subst hk
      exact isSome_apply_key table w
    · rename_i hk
      rw [getElem?_apply_of_ne hk]

theorem isSome_applyAll_filterMap [DecidableEq κ] {α : Type} {write? : α → Option (Write κ β)}
    {after : Bool → α → Bool}
    (h : ∀ there a, after there a =
      (write? a).elim there fun w => if w.key = k then w.leaves there else there)
    (entries : List α) (table : Std.ExtTreeMap κ β compare) :
    (applyAll table (entries.filterMap write?))[k]?.isSome =
      entries.foldl after table[k]?.isSome := by
  rw [isSome_applyAll]
  generalize table[k]?.isSome = there
  induction entries generalizing there with
  | nil => rfl
  | cons a as ih =>
    rw [foldl_cons, h]
    cases hw : write? a with
    | none => rw [filterMap_cons_none hw]; exact ih there
    | some w => rw [filterMap_cons_some hw]; exact ih _

/-- **Content rule**: what every row satisfies, every row put satisfies and every edit
keeps, every row satisfies afterwards. -/
theorem forall_applyAll {P : κ → β → Prop} (hput : ∀ k row, put k row ∈ writes → P k row)
    (hedit : ∀ k f, edit k f ∈ writes → ∀ row, P k row → P k (f row))
    {table : Std.ExtTreeMap κ β compare} (h : ∀ (k : κ) row, table[k]? = some row → P k row) :
    ∀ (k : κ) row, (applyAll table writes)[k]? = some row → P k row := by
  induction writes generalizing table with
  | nil => exact h
  | cons w ws ih =>
    refine ih (fun k row hw => hput k row (mem_cons_of_mem _ hw))
      (fun k f hw => hedit k f (mem_cons_of_mem _ hw)) ?_
    intro k row hrow
    by_cases hk : w.key = k
    · cases w with
      | put key row' =>
        cases hk
        have hself : some row' = some row := ExtTreeMap.getElem?_insert_self.symm.trans hrow
        cases hself
        exact hput _ _ mem_cons_self
      | edit key f =>
        cases hk
        obtain ⟨held, hheld, heq⟩ := Option.map_eq_some_iff.mp
          (ExtTreeMap.getElem?_modify_self.symm.trans hrow)
        exact heq ▸ hedit _ _ mem_cons_self held (h _ held hheld)
      | drop key =>
        cases hk
        simp [apply, Write.key] at hrow
    · rw [getElem?_apply_of_ne hk] at hrow
      exact h k row hrow

/-! ### Applying a batch again -/

/-- What a write leaves of its key's row. -/
def effect : Write κ β → Option β → Option β
  | put _ row, _ => some row
  | edit _ change, held => held.map change
  | drop _, _ => none

theorem getElem?_apply_key (table : Std.ExtTreeMap κ β compare) (w : Write κ β) :
    (apply table w)[w.key]? = w.effect table[w.key]? := by
  cases w with
  | put key row => simp [apply, Write.key, effect]
  | edit key change => simp [apply, Write.key, effect]
  | drop key => simp [apply, Write.key, effect]

/-- What a batch leaves under a key, write by write. -/
def effectOn [DecidableEq κ] (k : κ) (writes : List (Write κ β)) (held : Option β) : Option β :=
  writes.foldl (fun held w => if w.key = k then w.effect held else held) held

omit [Ord κ] [Std.TransOrd κ] [Std.LawfulEqOrd κ] in
theorem effectOn_append [DecidableEq κ] (k : κ) (writes : List (Write κ β)) (w : Write κ β)
    (held : Option β) : effectOn k (writes ++ [w]) held =
      if w.key = k then w.effect (effectOn k writes held) else effectOn k writes held := by
  simp [effectOn]

theorem getElem?_applyAll [DecidableEq κ] (writes : List (Write κ β))
    (table : Std.ExtTreeMap κ β compare) (k : κ) :
    (applyAll table writes)[k]? = effectOn k writes table[k]? := by
  induction writes generalizing table with
  | nil => rfl
  | cons w ws ih =>
    show (applyAll (apply table w) ws)[k]? = effectOn k ws (if w.key = k then _ else _)
    rw [ih]
    congr 1
    split
    · rename_i hk
      subst hk
      exact getElem?_apply_key table w
    · rename_i hk
      exact getElem?_apply_of_ne hk table

omit [Ord κ] [Std.TransOrd κ] [Std.LawfulEqOrd κ] in
/-- A batch with one change for all its edits makes one row of whatever a key holds, or leaves
it, or changes it. -/
theorem effectOn_cases [DecidableEq κ] {g : β → β} (hchange : ∀ row, g (g row) = g row)
    (hedit : ∀ k f, edit k f ∈ writes → f = g) (k : κ) :
    (∃ row, ∀ held, effectOn k writes held = row) ∨ (∀ held, effectOn k writes held = held) ∨
      ∀ held, effectOn k writes held = held.map g := by
  induction writes using List.reverseRecOn with
  | nil => exact .inr (.inl fun held => rfl)
  | append_singleton ws w ih =>
    have ih := ih fun key f hmem => hedit key f (mem_append_left _ hmem)
    by_cases hk : w.key = k
    · have hlast : ∀ held, effectOn k (ws ++ [w]) held = w.effect (effectOn k ws held) :=
        fun held => by rw [effectOn_append, if_pos hk]
      cases w with
      | put key row => exact .inl ⟨some row, fun held => by rw [hlast]; rfl⟩
      | drop key => exact .inl ⟨none, fun held => by rw [hlast]; rfl⟩
      | edit key f =>
        have hf := hedit key f (by simp)
        subst hf
        rcases ih with ⟨row, hrow⟩ | hsame | hchanged
        · exact .inl ⟨row.map f, fun held => by rw [hlast, hrow]; rfl⟩
        · exact .inr (.inr fun held => by rw [hlast, hsame]; rfl)
        · refine .inr (.inr fun held => ?_)
          rw [hlast, hchanged]
          cases held with
          | none => rfl
          | some row => exact congrArg some (hchange row)
    · have hlast : ∀ held, effectOn k (ws ++ [w]) held = effectOn k ws held :=
        fun held => by rw [effectOn_append, if_neg hk]
      simpa only [hlast] using ih

/-- **Replay rule**: a batch whose edits are all one change that need not be made twice may be
applied again. -/
theorem applyAll_applyAll [DecidableEq κ] {g : β → β} (hchange : ∀ row, g (g row) = g row)
    (hedit : ∀ k f, edit k f ∈ writes → f = g) (table : Std.ExtTreeMap κ β compare) :
    applyAll (applyAll table writes) writes = applyAll table writes := by
  apply ExtTreeMap.ext_getElem?
  intro k
  rw [getElem?_applyAll, getElem?_applyAll]
  rcases effectOn_cases hchange hedit k with ⟨row, hrow⟩ | hsame | hchanged
  · rw [hrow, hrow]
  · rw [hsame, hsame]
  · rw [hchanged, hchanged]
    cases table[k]? with
    | none => rfl
    | some row => exact congrArg some (hchange row)

end Write

end Aiwatcher.Library
