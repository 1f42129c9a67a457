import Mathlib.Data.List.Basic
import Mathlib.Data.List.Dedup
import Mathlib.Data.List.Nodup

/-!
# Aiwatcher.Library.Sequences

A condition on every entry of a list, given the entries in front of it.

What the empty list satisfies and an entry that meets the condition keeps, a list whose entries
all meet it satisfies (`Along.invariant`).

Bisection over the integers: halving an interval whose lower end does not have a
property and whose upper end does, down to two neighbours.  Nothing is assumed of the
property in between, so what is found is *a* place where it begins.

Ascending numbers written as the stretches of consecutive numbers among them, each by its first
and its last, and read back (`expand_stretches`).

Time cut into periods whose width may change.  A width is a whole part of a block and changes at
the start of a block only (`Cuts`), which is all that is needed for the cut to be exact:

* every instant lies in one period (`Cuts.existsUnique_period`), and of two periods the earlier
  ends before the later begins (`Cuts.add_le_of_lt`);
* a change of width at the start of a block leaves a cut (`Cuts.change`), with the periods
  before it as they were.

`Tiles` says that chunks of time follow one another from one instant to another; each instant
between is then in one chunk of them (`Tiles.countP_covers`).

A walk over keys in order that drops the first few that may go, and keeps the rest
(`Evicting.walk`).  `walk_induction` is the rule for what such a walk leaves.

Lists edited as vectors are: the first element a test picks is changed, the others stay
(`updateFirst`), and whether a list repeats an element is read off its set (`distinct`).
-/

namespace Aiwatcher.Library

open List

variable {α : Type} {P Q : List α → α → Prop}

/-- Every entry meets `P` behind the entries in front of it. -/
def Along (P : List α → α → Prop) : List α → List α → Prop
  | _, [] => True
  | before, a :: rest => P before a ∧ Along P (before ++ [a]) rest

theorem Along.and {before rest : List α} (hP : Along P before rest) (hQ : Along Q before rest) :
    Along (fun before a => P before a ∧ Q before a) before rest := by
  induction rest generalizing before with
  | nil => trivial
  | cons a rest ih => exact ⟨⟨hP.1, hQ.1⟩, ih hP.2 hQ.2⟩

/-- **Prefix rule**: what the entries keep one behind the other holds of the whole list. -/
theorem Along.invariant (Inv : List α → Prop)
    (hstep : ∀ before a, Inv before → P before a → Inv (before ++ [a])) {before rest : List α}
    (hall : Along P before rest) (h : Inv before) : Inv (before ++ rest) := by
  induction rest generalizing before with
  | nil => simpa using h
  | cons a rest ih =>
    have hrest := ih hall.2 (hstep before a h hall.1)
    rwa [append_assoc, singleton_append] at hrest

/-- Halve `(low, high]` towards a place where `reached` begins; `fuel` bounds the halvings. -/
def bisect (reached : Int → Bool) : Nat → Int → Int → Int
  | 0, _, high => high
  | fuel + 1, low, high =>
    if 1 < high - low then
      let middle := low + (high - low) / 2
      if reached middle then bisect reached fuel low middle else bisect reached fuel middle high
    else high

/-- **Bisection**: enough fuel ends where the property begins, inside the interval. -/
theorem bisect_spec {reached : Int → Bool} {fuel : Nat} {low high : Int} (hlt : low < high)
    (hlow : reached low = false) (hhigh : reached high = true) (hfuel : high - low ≤ fuel + 1) :
    low < bisect reached fuel low high ∧ bisect reached fuel low high ≤ high ∧
      reached (bisect reached fuel low high) = true ∧
      reached (bisect reached fuel low high - 1) = false := by
  induction fuel generalizing low high with
  | zero =>
    have hnext : high - 1 = low := by omega
    simp only [bisect, hnext]
    exact ⟨hlt, Int.le_refl high, hhigh, hlow⟩
  | succ fuel ih =>
    rw [bisect]
    by_cases hgap : 1 < high - low
    · rw [if_pos hgap]
      simp only
      split
      · rename_i hmiddle
        have hpart := @ih low (low + (high - low) / 2) (by omega) hlow hmiddle (by omega)
        exact ⟨hpart.1, by omega, hpart.2.2⟩
      · rename_i hmiddle
        rw [Bool.not_eq_true] at hmiddle
        have hpart := @ih (low + (high - low) / 2) high (by omega) hmiddle hhigh (by omega)
        exact ⟨by omega, hpart.2⟩
    · rw [if_neg hgap]
      have hnext : high - 1 = low := by omega
      rw [hnext]
      exact ⟨hlt, Int.le_refl high, hhigh, hlow⟩

/-- The stretches of some numbers, after an open one. -/
def stretchesFrom : Nat × Nat → List Nat → List (Nat × Nat)
  | stretch, [] => [stretch]
  | stretch, n :: rest =>
    if stretch.2 + 1 = n then stretchesFrom (stretch.1, n) rest
    else stretch :: stretchesFrom (n, n) rest

def stretches : List Nat → List (Nat × Nat)
  | [] => []
  | n :: rest => stretchesFrom (n, n) rest

/-- The numbers of a stretch. -/
def expand (stretch : Nat × Nat) : List Nat := List.range' stretch.1 (stretch.2 + 1 - stretch.1)

variable {numbers : List Nat} {stretch : Nat × Nat}

@[simp] theorem mem_expand {n : Nat} : n ∈ expand stretch ↔ stretch.1 ≤ n ∧ n ≤ stretch.2 := by
  simp only [expand, mem_range'_1]
  omega

theorem expand_self (n : Nat) : expand (n, n) = [n] := by
  simp [expand]

theorem expand_succ {first last : Nat} (h : first ≤ last) :
    expand (first, last + 1) = expand (first, last) ++ [last + 1] := by
  have hlength : last + 1 + 1 - first = last + 1 - first + 1 := by omega
  simp only [expand, hlength, range'_concat]
  congr 2
  omega

theorem expand_stretchesFrom (hle : stretch.1 ≤ stretch.2) :
    (stretchesFrom stretch numbers).flatMap expand = expand stretch ++ numbers := by
  induction numbers generalizing stretch with
  | nil => simp [stretchesFrom]
  | cons n numbers ih =>
    unfold stretchesFrom
    split
    · rename_i hnext
      subst hnext
      have hgrown : (stretchesFrom (stretch.1, stretch.2 + 1) numbers).flatMap expand =
          expand (stretch.1, stretch.2 + 1) ++ numbers := ih (by simp; omega)
      rw [hgrown, expand_succ hle, append_assoc, singleton_append]
    · rw [flatMap_cons, ih (Nat.le_refl n), expand_self, singleton_append]

/-- **Stretches read back** are the numbers they were written from. -/
theorem expand_stretches (numbers : List Nat) : (stretches numbers).flatMap expand = numbers := by
  cases numbers with
  | nil => rfl
  | cons n numbers => rw [stretches, expand_stretchesFrom (Nat.le_refl n), expand_self]; rfl

theorem le_of_mem_stretchesFrom {stretch other : Nat × Nat} (hle : stretch.1 ≤ stretch.2)
    (h : other ∈ stretchesFrom stretch numbers) : other.1 ≤ other.2 := by
  induction numbers generalizing stretch with
  | nil => simp_all [stretchesFrom]
  | cons n numbers ih =>
    unfold stretchesFrom at h
    split at h
    · exact ih (by simp; omega) h
    · rcases mem_cons.mp h with rfl | h
      · exact hle
      · exact ih (Nat.le_refl n) h

theorem le_of_mem_stretches (h : stretch ∈ stretches numbers) : stretch.1 ≤ stretch.2 := by
  cases numbers with
  | nil => simp [stretches] at h
  | cons n numbers => exact le_of_mem_stretchesFrom (Nat.le_refl n) h

theorem last_mem_of_mem_stretches (h : stretch ∈ stretches numbers) : stretch.2 ∈ numbers := by
  rw [← expand_stretches numbers, mem_flatMap]
  exact ⟨stretch, h, by simp [le_of_mem_stretches h]⟩

/-! ## Periods -/

/-- The start of the period an instant falls in. -/
def floorOf (width : Int → Int) (t : Int) : Int := t / width t * width t

/-- Widths that change at the start of a block only, each a whole part of a block. -/
structure Cuts (block : Int) (width : Int → Int) : Prop where
  pos : ∀ t, 0 < width t
  dvd : ∀ t, width t ∣ block
  steady : ∀ t u, t / block = u / block → width t = width u

namespace Cuts

variable {block : Int} {width : Int → Int} (h : Cuts block width)

include h

variable (t : Int)

theorem floorOf_le : floorOf width t ≤ t := by
  have hpos := h.pos t
  exact Int.ediv_mul_le t (by omega)

theorem lt_floorOf_add : t < floorOf width t + width t := by
  have hlt := Int.lt_ediv_add_one_mul_self t (h.pos t)
  rw [Int.add_mul, Int.one_mul] at hlt
  exact hlt

/-- A period lies in one block. -/
theorem block_eq {t u : Int} (hle : floorOf width t ≤ u) (hlt : u < floorOf width t + width t) :
    u / block = t / block := by
  obtain ⟨k, hk⟩ := h.dvd t
  have hpos := h.pos t
  have hdiv : u / width t = t / width t := by
    rw [Int.ediv_eq_iff_of_pos hpos]
    constructor
    · exact hle
    · unfold floorOf at hlt
      lia
  have hnonneg : 0 ≤ width t := Int.le_of_lt hpos
  calc u / block = u / width t / k := by rw [hk, Int.ediv_ediv_of_nonneg hnonneg]
    _ = t / width t / k := by rw [hdiv]
    _ = t / block := by rw [hk, Int.ediv_ediv_of_nonneg hnonneg]

theorem width_eq {t u : Int} (hle : floorOf width t ≤ u) (hlt : u < floorOf width t + width t) :
    width u = width t :=
  h.steady u t (h.block_eq hle hlt)

theorem floorOf_eq {t u : Int} (hle : floorOf width t ≤ u)
    (hlt : u < floorOf width t + width t) : floorOf width u = floorOf width t := by
  have hpos := h.pos t
  have hdiv : u / width t = t / width t := by
    rw [Int.ediv_eq_iff_of_pos hpos]
    constructor
    · exact hle
    · unfold floorOf at hlt
      lia
  rw [floorOf, h.width_eq hle hlt, hdiv, floorOf]

@[simp] theorem floorOf_floorOf : floorOf width (floorOf width t) = floorOf width t := by
  have hpos := h.pos t
  exact h.floorOf_eq (Int.le_refl _) (by omega)

theorem width_floorOf : width (floorOf width t) = width t := by
  have hpos := h.pos t
  exact h.width_eq (Int.le_refl _) (by omega)

theorem floorOf_mono {t u : Int} (hle : t ≤ u) : floorOf width t ≤ floorOf width u := by
  by_contra hlt
  have hu := h.lt_floorOf_add u
  have ht := h.floorOf_le t
  have heq : floorOf width t = floorOf width u := by
    rw [← h.floorOf_floorOf t]
    exact h.floorOf_eq (by omega) (by omega)
  omega

/-- Of two periods the earlier ends before the later begins. -/
theorem add_le_of_lt {t s : Int} (hs : floorOf width s = s) (hlt : t < s) :
    floorOf width t + width t ≤ s := by
  by_contra hover
  have hle := h.floorOf_le t
  have heq : floorOf width s = floorOf width t := h.floorOf_eq (by omega) (by omega)
  omega

/-- Where a period ends the next one begins. -/
theorem floorOf_add_width :
    floorOf width (floorOf width t + width t) = floorOf width t + width t := by
  have hle := h.floorOf_le (floorOf width t + width t)
  by_contra hne
  have hlt := h.lt_floorOf_add t
  have hpos := h.pos t
  have hsame : floorOf width (floorOf width t + width t - 1) = floorOf width t :=
    h.floorOf_eq (by omega) (by omega)
  have hnext := h.lt_floorOf_add (floorOf width t + width t)
  have hother : floorOf width (floorOf width t + width t - 1) =
      floorOf width (floorOf width t + width t) := h.floorOf_eq (by omega) (by omega)
  have hwidth : width (floorOf width t + width t) = width t := by
    have hw := h.width_floorOf (floorOf width t + width t)
    rw [← hother, hsame, h.width_floorOf] at hw
    exact hw.symm
  omega

/-- **Partition**: every instant lies in exactly one period. -/
theorem existsUnique_period : ∃! s, floorOf width s = s ∧ s ≤ t ∧ t < s + width s := by
  refine ⟨floorOf width t, ⟨h.floorOf_floorOf t, h.floorOf_le t, ?_⟩, ?_⟩
  · rw [h.width_floorOf]
    exact h.lt_floorOf_add t
  · rintro s ⟨hs, hle, hlt⟩
    have heq : floorOf width t = floorOf width s := h.floorOf_eq (by omega) (by rw [hs]; exact hlt)
    rw [heq, hs]

/-- The start of a block is the start of a period. -/
theorem floorOf_of_dvd {t : Int} (hdvd : block ∣ t) : floorOf width t = t :=
  Int.ediv_mul_cancel (Int.dvd_trans (h.dvd t) hdvd)

omit h in
theorem change (h : Cuts block width) (hblock : 0 < block) {switch w : Int} (hw : 0 < w)
    (hdvd : w ∣ block) (hswitch : block ∣ switch) :
    Cuts block fun t => if switch ≤ t then w else width t := by
  refine ⟨?_, ?_, ?_⟩
  · intro t
    split
    · exact hw
    · exact h.pos t
  · intro t
    split
    · exact hdvd
    · exact h.dvd t
  · intro t u heq
    obtain ⟨k, rfl⟩ := hswitch
    have hside : ∀ v : Int, block * k ≤ v ↔ k ≤ v / block := by
      intro v
      rw [Int.le_ediv_iff_mul_le hblock, Int.mul_comm]
    simp only [hside, heq, h.steady t u heq]

omit h in
theorem const {w : Int} (hw : 0 < w) (hdvd : w ∣ block) : Cuts block fun _ => w :=
  ⟨fun _ => hw, fun _ => hdvd, fun _ _ _ => rfl⟩

end Cuts

/-! ## Chunks -/

/-- Chunks of time, each a length and a start, that follow one another from an instant to
another. -/
def Tiles : Int → List (Int × Int) → Int → Prop
  | lo, [], hi => lo = hi
  | lo, (length, start) :: rest, hi => start = lo ∧ 0 < length ∧ Tiles (lo + length) rest hi

/-- Whether an instant lies in a chunk. -/
def covers (t : Int) (chunk : Int × Int) : Bool :=
  decide (chunk.2 ≤ t) && decide (t < chunk.2 + chunk.1)

namespace Tiles

variable {lo hi : Int} {chunks : List (Int × Int)}

section

variable (h : Tiles lo chunks hi)

include h

theorem le : lo ≤ hi := by
  induction chunks generalizing lo with
  | nil => exact Int.le_of_eq h
  | cons chunk rest ih =>
    obtain ⟨-, hpos, hrest⟩ := h
    have hle := ih hrest
    omega

theorem bounds_of_mem {chunk : Int × Int} (hmem : chunk ∈ chunks) :
    0 < chunk.1 ∧ lo ≤ chunk.2 ∧ chunk.2 + chunk.1 ≤ hi := by
  induction chunks generalizing lo with
  | nil => cases hmem
  | cons head rest ih =>
    obtain ⟨hstart, hpos, hrest⟩ := h
    rcases mem_cons.mp hmem with rfl | hmem
    · have hle := hrest.le
      omega
    · have hbounds := ih hrest hmem
      omega

theorem exists_mem {t : Int} (hle : lo ≤ t) (hlt : t < hi) :
    ∃ chunk ∈ chunks, chunk.2 ≤ t ∧ t < chunk.2 + chunk.1 := by
  induction chunks generalizing lo with
  | nil =>
    have heq : lo = hi := h
    omega
  | cons head rest ih =>
    obtain ⟨hstart, hpos, hrest⟩ := h
    by_cases hin : t < lo + head.1
    · exact ⟨head, mem_cons_self, by omega, by omega⟩
    · obtain ⟨chunk, hchunk, hcovers⟩ := ih hrest (by omega)
      exact ⟨chunk, mem_cons_of_mem _ hchunk, hcovers⟩

/-- **Each instant once**: in one chunk between the ends, and in none outside. -/
theorem countP_covers (t : Int) : chunks.countP (covers t) = if lo ≤ t ∧ t < hi then 1 else 0 := by
  induction chunks generalizing lo with
  | nil =>
    have heq : lo = hi := h
    rw [countP_nil, if_neg (by omega)]
  | cons chunk rest ih =>
    obtain ⟨hstart, hpos, hrest⟩ := h
    have hle := hrest.le
    rw [countP_cons, ih hrest]
    by_cases hin : covers t chunk = true
    · have hbounds := hin
      simp only [covers, Bool.and_eq_true, decide_eq_true_eq] at hbounds
      rw [if_neg (by omega), if_pos hin, if_pos (by omega)]
    · have hbounds := hin
      simp only [covers, Bool.and_eq_true, decide_eq_true_eq] at hbounds
      rw [if_neg hin, Nat.add_zero]
      congr 1
      apply propext
      omega

end

end Tiles

structure Evicting (σ κ : Type) where
  state : σ
  excess : Nat
  keep : List κ := []
  gone : List κ := []

namespace Evicting

variable {σ κ : Type} (may : σ → κ → Bool) (drop : σ → κ → σ)

/-- One key is dropped where too many are left and it may go, or kept. -/
def step (walk : Evicting σ κ) (key : κ) : Evicting σ κ :=
  if 0 < walk.excess && may walk.state key then
    ⟨drop walk.state key, walk.excess - 1, walk.keep, walk.gone ++ [key]⟩
  else { walk with keep := walk.keep ++ [key] }

def walk (excess : Nat) (order : List κ) (state : σ) : Evicting σ κ :=
  order.foldl (step may drop) { state, excess }

variable {may drop}

/-- **Walk rule**: what holds before, and after a key is dropped or kept, holds at the end. -/
theorem walk_induction (Inv : Evicting σ κ → List κ → Prop)
    (hdrop : ∀ w key rest, Inv w (key :: rest) → may w.state key = true →
      Inv ⟨drop w.state key, w.excess - 1, w.keep, w.gone ++ [key]⟩ rest)
    (hkeep : ∀ w key rest, Inv w (key :: rest) → Inv { w with keep := w.keep ++ [key] } rest)
    {excess : Nat} {order : List κ} {state : σ} (h : Inv { state, excess } order) :
    Inv (walk may drop excess order state) [] := by
  have hfold : ∀ (rest : List κ) (w : Evicting σ κ), Inv w rest →
      Inv (rest.foldl (step may drop) w) [] := by
    intro rest
    induction rest with
    | nil => exact fun _ h => h
    | cons key rest ih =>
      intro w h
      apply ih
      unfold step
      split
      · rename_i hmay
        exact hdrop w key rest h (by simpa using (Bool.and_eq_true_iff.mp hmay).2)
      · exact hkeep w key rest h
  exact hfold order _ h

theorem walk_state {P : σ → Prop}
    (hdrop : ∀ state key, P state → may state key = true → P (drop state key))
    {excess : Nat} {order : List κ} {state : σ} (h : P state) :
    P (walk may drop excess order state).state :=
  walk_induction (fun w _ => P w.state) (fun w key _ h hmay => hdrop w.state key h hmay)
    (fun _ _ _ h => h) h

theorem walk_map {τ : Type} (f : σ → τ) {may' : τ → κ → Bool} {drop' : τ → κ → τ}
    (hmay : ∀ state key, may' (f state) key = may state key)
    (hdrop : ∀ state key, f (drop state key) = drop' (f state) key) (excess : Nat)
    (order : List κ) (state : σ) :
    f (walk may drop excess order state).state = (walk may' drop' excess order (f state)).state ∧
      (walk may drop excess order state).keep = (walk may' drop' excess order (f state)).keep := by
  have hfold : ∀ (rest : List κ) (w : Evicting σ κ) (v : Evicting τ κ), f w.state = v.state →
      w.excess = v.excess → w.keep = v.keep →
      f (rest.foldl (step may drop) w).state = (rest.foldl (step may' drop') v).state ∧
        (rest.foldl (step may drop) w).keep = (rest.foldl (step may' drop') v).keep := by
    intro rest
    induction rest with
    | nil => exact fun _ _ hstate _ hkeep => ⟨hstate, hkeep⟩
    | cons key rest ih =>
      intro w v hstate hexcess hkeep
      rw [foldl_cons, foldl_cons]
      have hsame := hmay w.state key
      rw [hstate] at hsame
      apply ih
      · unfold step
        rw [hsame, ← hexcess]
        split
        · rw [hdrop, hstate]
        · exact hstate
      · unfold step
        rw [hsame, ← hexcess]
        split <;> simp [hexcess]
      · unfold step
        rw [hsame, ← hexcess]
        split <;> simp [hkeep]
  exact hfold order _ _ rfl rfl rfl

end Evicting

variable {α κ : Type}

/-- Change the first element a test picks. -/
def updateFirst (picks : α → Bool) (change : α → α) : List α → List α
  | [] => []
  | a :: rest => if picks a then change a :: rest else a :: updateFirst picks change rest

/-- The elements are as many as the set of them holds. -/
def distinct [DecidableEq α] (items : List α) : Bool := items.dedup.length == items.length

theorem distinct_iff_nodup [DecidableEq α] {items : List α} : distinct items ↔ items.Nodup := by
  rw [distinct, beq_iff_eq, ← dedup_eq_self]
  exact ⟨(dedup_sublist items).eq_of_length, fun h => by rw [h]⟩

section

variable {picks : α → Bool} {change : α → α}

theorem map_updateFirst {key : α → κ} (h : ∀ a, key (change a) = key a) (items : List α) :
    (updateFirst picks change items).map key = items.map key := by
  induction items with
  | nil => rfl
  | cons a rest ih =>
    rw [updateFirst]
    split <;> simp [h, ih]

theorem mem_updateFirst {items : List α} {b : α} (h : b ∈ updateFirst picks change items) :
    b ∈ items ∨ ∃ a ∈ items, picks a ∧ b = change a := by
  induction items with
  | nil => simp [updateFirst] at h
  | cons a rest ih =>
    rw [updateFirst] at h
    split at h
    · rcases mem_cons.mp h with rfl | h
      · exact .inr ⟨a, by simp, ‹_›, rfl⟩
      · exact .inl (by simp [h])
    · rcases mem_cons.mp h with rfl | h
      · exact .inl (by simp)
      · rcases ih h with hrest | ⟨a', hmem, hpicks, rfl⟩
        · exact .inl (by simp [hrest])
        · exact .inr ⟨a', by simp [hmem], hpicks, rfl⟩

end

theorem find?_updateFirst [DecidableEq κ] (key : α → κ) {change : α → α}
    (h : ∀ a, key (change a) = key a) (k q : κ) (items : List α) :
    (updateFirst (fun a => key a = k) change items).find? (fun a => key a = q) =
      if q = k then (items.find? fun a => key a = k).map change
      else items.find? fun a => key a = q := by
  induction items with
  | nil => simp [updateFirst]
  | cons a rest ih =>
    rw [updateFirst]
    by_cases hkey : key a = k
    · by_cases hq : q = k
      · simp [hkey, hq, h]
      · have hne : key a ≠ q := fun heq => hq (heq ▸ hkey)
        simp [hkey, hq, h, Ne.symm hq]
    · simp only [hkey, decide_false, Bool.false_eq_true, if_false, find?_cons, ih]
      by_cases hq : q = k
      · subst hq
        simp [hkey]
      · simp [hq]

theorem updateFirst_eq_map [DecidableEq κ] {key : α → κ} {k : κ} {change : α → α} {items : List α}
    (h : (items.map key).Nodup) :
    updateFirst (fun a => key a = k) change items =
      items.map fun a => if key a = k then change a else a := by
  induction items with
  | nil => rfl
  | cons a rest ih =>
    obtain ⟨hhead, hrest⟩ := nodup_cons.mp h
    rw [updateFirst, map_cons]
    by_cases hkey : key a = k
    · have hothers : ∀ b ∈ rest, (if key b = k then change b else b) = b := by
        intro b hb
        have hne : key b ≠ k := fun heq =>
          hhead (mem_map.mpr ⟨b, hb, by rw [heq, hkey]⟩)
        simp [hne]
      simp [hkey, map_congr_left hothers]
    · simp [hkey, ih hrest]

end Aiwatcher.Library
