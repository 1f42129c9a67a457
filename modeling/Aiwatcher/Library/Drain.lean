import Mathlib.Data.List.Basic

/-!
# Aiwatcher.Library.Drain

A queue emptied in passes.  A pass reads a bounded batch from the head, takes what it can
of it and drops every row under the key of one it took; what it cannot take stays where
it is.

`drained_iff` says which queues are emptied of everything that can be taken: those where
less than a batch stands in the way of each row (`inTheWay`).
-/

namespace Aiwatcher.Library

open List

/-- How a queue is read: what a row is dropped by, which rows can be taken, and how many
are read at a time. -/
structure Drain (ρ ι : Type) where
  key : ρ → ι
  takes : ρ → Bool
  size : Nat

namespace Drain

variable {ρ ι : Type} [DecidableEq ι] (D : Drain ρ ι)

/-- The rows one pass takes. -/
def taken (queue : List ρ) : List ρ := (queue.take D.size).filter D.takes

/-- The keys of the rows of some queue that can be taken. -/
def takeable (queue : List ρ) : List ι := (queue.filter D.takes).map D.key

/-- What one pass leaves. -/
def left (queue : List ρ) : List ρ :=
  queue.filter fun row => !((D.taken queue).map D.key).contains (D.key row)

/-- What a number of passes leave. -/
def after : Nat → List ρ → List ρ
  | 0, queue => queue
  | n + 1, queue => after n (D.left queue)

/-- What a number of passes take. -/
def drained : Nat → List ρ → List ρ
  | 0, _ => []
  | n + 1, queue => D.taken queue ++ drained n (D.left queue)

/-- The rows of a front that nothing in it takes away. -/
def inTheWay (front : List ρ) : List ρ :=
  front.filter fun row => !D.takes row && !(D.takeable front).contains (D.key row)

/-- Less than a batch is in the way of each row that is the first of its key to be
takeable. -/
def Unblocked (queue : List ρ) : Prop :=
  ∀ front row back, queue = front ++ row :: back → D.takes row = true →
    D.key row ∉ D.takeable front → (D.inTheWay front).length < D.size

variable {D}

variable {keys : List ι} {queue : List ρ} {row : ρ}

omit [DecidableEq ι] in
theorem mem_takeable {key : ι} :
    key ∈ D.takeable queue ↔ ∃ row ∈ queue, D.takes row = true ∧ D.key row = key := by
  simp [takeable, and_assoc]

theorem filter_split {queue front back : List ρ} (hqueue : queue = front ++ row :: back)
    {p : ρ → Bool} (hrow : p row = true) :
    queue.filter p = front.filter p ++ row :: back.filter p := by
  simp [hqueue, hrow]

theorem Unblocked.take (h : D.Unblocked queue) (limit : Nat) : D.Unblocked (queue.take limit) := by
  intro front row back hqueue
  refine h front row (back ++ queue.drop limit) ?_
  conv_lhs => rw [← take_append_drop limit queue, hqueue]
  simp

/-! ### Passes, one after another -/

theorem drained_succ (n : Nat) (queue : List ρ) :
    D.drained (n + 1) queue = D.drained n queue ++ D.taken (D.after n queue) := by
  induction n generalizing queue with
  | zero => simp [drained, after]
  | succ n ih => rw [drained, ih, drained, after, append_assoc]

/-- What is left is what nothing taken shares a key with. -/
theorem after_eq (n : Nat) (queue : List ρ) :
    D.after n queue =
      queue.filter fun row => !((D.drained n queue).map D.key).contains (D.key row) := by
  induction n generalizing queue with
  | zero => simp [drained, after]
  | succ n ih =>
    rw [after, ih, left, filter_filter]
    congr 1
    funext row
    simp [drained, left, Bool.and_comm]

theorem drained_first {n : Nat} {queue front back : List ρ} (hqueue : queue = front ++ row :: back)
    (htakes : D.takes row = true) (hfirst : D.key row ∉ D.takeable front)
    (h : D.key row ∈ (D.drained n queue).map D.key) : row ∈ D.drained n queue := by
  induction n generalizing queue front back with
  | zero => simp [drained] at h
  | succ n ih =>
    rw [drained, mem_append]
    by_cases hnow : D.key row ∈ (D.taken queue).map D.key
    · -- a row of this key in the batch is at or behind the first one
      left
      obtain ⟨found, hfound, hkey⟩ := mem_map.mp hnow
      rw [taken, mem_filter, hqueue, take_append, mem_append] at hfound
      rw [taken, mem_filter, hqueue, take_append, mem_append]
      obtain ⟨hfound | hfound, hfoundTakes⟩ := hfound
      · exact absurd (mem_takeable.mpr ⟨found, mem_of_mem_take hfound, hfoundTakes, hkey⟩)
          hfirst
      · cases hroom : D.size - front.length with
        | zero => simp [hroom] at hfound
        | succ room => exact ⟨.inr mem_cons_self, htakes⟩
    · right
      rw [drained, map_append, mem_append] at h
      have hleft := filter_split hqueue
        (p := fun row => !((D.taken queue).map D.key).contains (D.key row)) (by simpa using hnow)
      refine ih hleft (fun hmem => hfirst ?_) (h.resolve_left hnow)
      obtain ⟨found, hfound, hfoundTakes, hkey⟩ := mem_takeable.mp hmem
      exact mem_takeable.mpr ⟨found, mem_of_mem_filter hfound, hfoundTakes, hkey⟩

/-! ### A batch in the way -/

/-- A front that fills every batch with rows nothing takes away: of the rows it can take,
each has one of the given keys. -/
structure Full (keys : List ι) (front : List ρ) : Prop where
  fills : D.size ≤ (front.filter fun row => !D.takes row && !keys.contains (D.key row)).length
  within : ∀ row ∈ front, D.takes row = true → D.key row ∈ keys

theorem Full.taken {front back : List ρ} (h : D.Full keys front)
    (hrow : row ∈ D.taken (front ++ back)) : row ∈ front ∧ D.key row ∈ keys := by
  have hlength : D.size ≤ front.length := Nat.le_trans h.fills (length_filter_le _ _)
  rw [Drain.taken, take_append_of_le_length hlength, mem_filter] at hrow
  have hmem := mem_of_mem_take hrow.1
  exact ⟨hmem, h.within row hmem hrow.2⟩

/-- Nothing outside the given keys is ever taken from behind a full front. -/
theorem Full.drained {front back : List ρ} (h : D.Full keys front) (n : Nat)
    (hrow : row ∈ D.drained n (front ++ back)) : D.key row ∈ keys := by
  induction n generalizing front back with
  | zero => simp [Drain.drained] at hrow
  | succ n ih =>
    rw [Drain.drained, mem_append] at hrow
    cases hrow with
    | inl hrow => exact (h.taken hrow).2
    | inr hrow =>
      rw [left, filter_append] at hrow
      refine ih ⟨?_, fun r hr => h.within r (mem_of_mem_filter hr)⟩ hrow
      -- what fills the front has none of the keys, and so stays
      have hkept : ∀ r ∈ D.taken (front ++ back), D.key r ∈ keys := fun r hr =>
        (h.taken hr).2
      rw [filter_filter]
      refine Nat.le_trans h.fills (Nat.le_of_eq (congrArg List.length ?_))
      exact filter_congr fun r _ => by grind

theorem full_inTheWay {front : List ρ} (h : D.size ≤ (D.inTheWay front).length) :
    D.Full (D.takeable front) front where
  fills := h
  within _ hrow htakes := mem_takeable.mpr ⟨_, hrow, htakes, rfl⟩

/-! ### Less than a batch in the way -/

theorem length_front_le {front : List ρ} (h : ∀ key ∈ D.takeable front, key ∈ keys) :
    (front.filter fun row => !keys.contains (D.key row)).length ≤ (D.inTheWay front).length := by
  have hsub : front.filter (fun row => !keys.contains (D.key row)) =
      (D.inTheWay front).filter fun row => !keys.contains (D.key row) := by
    rw [inTheWay, filter_filter]
    refine filter_congr fun row hrow => ?_
    have htakes : D.takes row = true → D.key row ∈ keys := fun htakes =>
      h _ (mem_takeable.mpr ⟨row, hrow, htakes, rfl⟩)
    have hkey := h (D.key row)
    grind
  rw [hsub]
  exact length_filter_le _ _

theorem taken_next {n : Nat} {queue front back : List ρ} (hqueue : queue = front ++ row :: back)
    (htakes : D.takes row = true)
    (hfront : ∀ key ∈ D.takeable front, key ∈ (D.drained n queue).map D.key)
    (hway : (D.inTheWay front).length < D.size) :
    D.key row ∈ (D.drained (n + 1) queue).map D.key := by
  rw [drained_succ, map_append, mem_append]
  by_cases hdone : D.key row ∈ (D.drained n queue).map D.key
  · exact .inl hdone
  · have hlength := Nat.lt_of_le_of_lt (length_front_le hfront) hway
    have hafter := filter_split hqueue
      (p := fun row => !((D.drained n queue).map D.key).contains (D.key row)) (by simpa using hdone)
    refine .inr (mem_map_of_mem ?_)
    rw [after_eq, hafter, taken, mem_filter, take_append, mem_append]
    refine ⟨.inr ?_, htakes⟩
    obtain ⟨room, hroom⟩ := Nat.exists_eq_succ_of_ne_zero (Nat.sub_ne_zero_of_lt hlength)
    rw [hroom, take_succ_cons]
    exact mem_cons_self

theorem Unblocked.front (h : D.Unblocked queue) (length : Nat) :
    ∃ n, ∀ key ∈ D.takeable (queue.take length), key ∈ (D.drained n queue).map D.key := by
  induction length with
  | zero => exact ⟨0, by simp [takeable]⟩
  | succ length ih =>
    obtain ⟨n, hn⟩ := ih
    cases hrow : queue[length]? with
    | none =>
      refine ⟨n, ?_⟩
      rw [List.getElem?_eq_none_iff] at hrow
      have hsame : queue.take (length + 1) = queue.take length := by
        rw [take_of_length_le hrow, take_of_length_le (by omega)]
      rwa [hsame]
    | some row =>
      refine ⟨n + 1, fun key hkey => ?_⟩
      have hmono : ∀ key, key ∈ (D.drained n queue).map D.key →
          key ∈ (D.drained (n + 1) queue).map D.key := fun key hkey => by
        rw [drained_succ, map_append]
        exact mem_append_left _ hkey
      rw [take_add_one, hrow, Option.toList_some, mem_takeable] at hkey
      obtain ⟨found, hfound, htakes, rfl⟩ := hkey
      by_cases hseen : D.key found ∈ D.takeable (queue.take length)
      · exact hmono _ (hn _ hseen)
      · have hfound : found = row := by
          have := mem_takeable.not.mp hseen
          grind
        subst hfound
        have hsplit : queue = queue.take length ++ found :: queue.drop (length + 1) := by
          rw [List.getElem?_eq_some_iff] at hrow
          obtain ⟨hlt, hrow⟩ := hrow
          rw [← hrow, getElem_cons_drop, take_append_drop]
        exact taken_next hsplit htakes hn (h _ _ _ hsplit htakes hseen)

/-- **Which queues are emptied**: everything that can be taken is, under its key, in some
number of passes exactly if less than a batch is ever in the way. -/
theorem drained_iff :
    (∀ row ∈ queue, D.takes row = true → ∃ n, D.key row ∈ (D.drained n queue).map D.key) ↔
      D.Unblocked queue := by
  constructor
  · intro h front row back hqueue htakes hfirst
    by_contra hfull
    obtain ⟨n, hn⟩ := h row (by simp [hqueue]) htakes
    rw [mem_map] at hn
    obtain ⟨found, hfound, hkey⟩ := hn
    rw [hqueue] at hfound
    exact hfirst (hkey ▸ (full_inTheWay (Nat.le_of_not_lt hfull)).drained n hfound)
  · intro h row hrow htakes
    obtain ⟨n, hn⟩ := h.front queue.length
    rw [take_length] at hn
    exact ⟨n, hn _ (mem_takeable.mpr ⟨row, hrow, htakes, rfl⟩)⟩

end Drain

end Aiwatcher.Library
