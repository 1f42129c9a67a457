import Mathlib.Logic.Function.Basic
import Mathlib.Logic.Relation

/-!
# Aiwatcher.Library.Groups

Numbers joined into groups, two at a time: a forest in which each number knows the next towards the
root of its group, halving the path on the way up (`root`, `join`, `joinAll`).

Two numbers come to one root exactly if the joined pairs connect them (`labelled_joinAll`).
-/

namespace Aiwatcher.Library

open Function

/-- The next towards the root; a root is its own. -/
abbrev Forest := Nat → Nat

/-- The root above a number, at most so many steps up; each step halves the path. -/
def root : Nat → Forest → Nat → Forest × Nat
  | 0, group, place => (group, place)
  | steps + 1, group, place =>
    if group place = place then (group, place)
    else root steps (Function.update group place (group (group place))) (group (group place))

/-- Join two numbers' groups: the one's root under the other's. -/
def join (steps : Nat) (group : Forest) (pair : Nat × Nat) : Forest :=
  let (group, one) := root steps group pair.1
  let (group, other) := root steps group pair.2
  Function.update group one other

/-- No path is longer than the number of joins. -/
def joinAll (pairs : List (Nat × Nat)) : Forest := pairs.foldl (join pairs.length) id

/-- The roots above numbers, one after the other. -/
def roots (steps : Nat) : Forest → List Nat → List Nat
  | _, [] => []
  | group, place :: rest =>
    let (group, root) := root steps group place
    root :: roots steps group rest

/-! ## Labels -/

/-- Each number's root is its label, and no path has more steps than `height`. -/
structure Labelled (group : Forest) (label : Nat → Nat) (height : Nat) : Prop where
  up : ∀ x, label (group x) = label x
  roots : ∀ x, group x = x → label x = x
  climbs : ∃ rank : Nat → Nat, (∀ x, group x ≠ x → rank x < rank (group x)) ∧
    ∀ x, rank x ≤ height

theorem labelled_id : Labelled id id 0 where
  up _ := rfl
  roots _ _ := rfl
  climbs := ⟨fun _ => 0, fun _ h => absurd rfl h, fun _ => Nat.le_refl 0⟩

variable {group : Forest} {height steps : Nat} {label : Nat → Nat}

theorem Labelled.group_label {height : Nat} (h : Labelled group label height) (x : Nat) :
    group (label x) = label x := by
  obtain ⟨rank, hrank, hbound⟩ := h.climbs
  have habove : ∀ (steps y : Nat), height < rank y + steps + 1 → group (label y) = label y := by
    intro steps
    induction steps with
    | zero =>
      intro y hy
      have hroot : group y = y := by
        by_contra hne
        have hlt := hrank y hne
        have hle := hbound (group y)
        omega
      rw [h.roots y hroot, hroot]
    | succ steps ih =>
      intro y hy
      by_cases hroot : group y = y
      · rw [h.roots y hroot, hroot]
      · have hlt := hrank y hroot
        rw [← h.up y]
        exact ih (group y) (by omega)
  exact habove height x (by omega)

theorem Labelled.label_label {height : Nat} (h : Labelled group label height) (x : Nat) :
    label (label x) = label x :=
  h.roots _ (h.group_label x)

/-- **Halving** a path keeps the labels. -/
theorem root_of_rank {label rank : Nat → Nat} {height : Nat} (h : Labelled group label height)
    (hrank : ∀ x, group x ≠ x → rank x < rank (group x)) (hbound : ∀ x, rank x ≤ height) :
    ∀ (steps place : Nat), height < rank place + steps + 1 →
      Labelled (root steps group place).1 label height ∧
        (root steps group place).2 = label place := by
  intro steps
  induction steps generalizing group with
  | zero =>
    intro place hsteps
    have hroot : group place = place := by
      by_contra hne
      have hlt := hrank place hne
      have hle := hbound (group place)
      omega
    rw [root, h.roots place hroot]
    exact ⟨h, rfl⟩
  | succ steps ih =>
    intro place hsteps
    rw [root]
    split
    · rename_i hroot
      rw [h.roots place hroot]
      exact ⟨h, rfl⟩
    · rename_i hne
      have hlt := hrank place hne
      have hle : rank (group place) ≤ rank (group (group place)) := by
        by_cases heq : group (group place) = group place
        · exact Nat.le_of_eq (congrArg rank heq.symm)
        · exact Nat.le_of_lt (hrank _ heq)
      have hup : label (group (group place)) = label place := by rw [h.up, h.up]
      have hrank' : ∀ x, update group place (group (group place)) x ≠ x →
          rank x < rank (update group place (group (group place)) x) := by
        intro x hx
        by_cases hsame : x = place
        · subst hsame
          rw [update_self]
          omega
        · rw [update_of_ne hsame] at hx ⊢
          exact hrank x hx
      have hhalved : Labelled (update group place (group (group place))) label height := by
        refine ⟨fun x => ?_, fun x hx => ?_, rank, hrank', hbound⟩
        · by_cases hsame : x = place
          · subst hsame
            rw [update_self, hup]
          · rw [update_of_ne hsame, h.up]
        · by_cases hsame : x = place
          · subst hsame
            rw [update_self] at hx
            rw [hx] at hle
            omega
          · rw [update_of_ne hsame] at hx
            exact h.roots x hx
      have hnext := ih hhalved hrank' (group (group place)) (by omega)
      rw [hup] at hnext
      exact hnext

theorem root_spec (h : Labelled group label height) (hsteps : height ≤ steps) (place : Nat) :
    Labelled (root steps group place).1 label height ∧
      (root steps group place).2 = label place := by
  obtain ⟨rank, hrank, hbound⟩ := h.climbs
  exact root_of_rank h hrank hbound steps place (by omega)

theorem roots_eq (h : Labelled group label height) (hsteps : height ≤ steps) (places : List Nat) :
    roots steps group places = places.map label := by
  induction places generalizing group with
  | nil => rfl
  | cons place places ih =>
    obtain ⟨hroot, htop⟩ := root_spec h hsteps place
    rw [roots]
    dsimp only
    rw [List.map_cons, htop, ih hroot]

/-! ## Joins -/

/-- The labels once the group of one number has been put under another's. -/
def relabelled (label : Nat → Nat) (pair : Nat × Nat) (place : Nat) : Nat :=
  if label place = label pair.1 then label pair.2 else label place

/-- A root put under another. -/
theorem Labelled.put {group : Forest} {label : Nat → Nat} {height : Nat}
    (h : Labelled group label height) (pair : Nat × Nat) :
    Labelled (update group (label pair.1) (label pair.2)) (relabelled label pair)
      (height + 1) := by
  have hone := h.group_label pair.1
  have hother := h.group_label pair.2
  have hsame := h.label_label pair.1
  have hsame' := h.label_label pair.2
  generalize hone_eq : label pair.1 = one at *
  generalize hother_eq : label pair.2 = other at *
  have hrelabelled : ∀ x, relabelled label pair x = if label x = one then other else label x := by
    intro x
    rw [relabelled, hone_eq, hother_eq]
  refine ⟨fun x => ?_, fun x hx => ?_, ?_⟩
  · rw [hrelabelled, hrelabelled]
    by_cases hx : x = one
    · subst hx
      rw [update_self, if_pos hsame, hsame']
      split <;> rfl
    · rw [update_of_ne hx, h.up]
  · rw [hrelabelled]
    by_cases hx' : x = one
    · subst hx'
      rw [update_self] at hx
      rw [if_pos hsame, hx]
    · rw [update_of_ne hx'] at hx
      rw [h.roots x hx, if_neg hx']
  · obtain ⟨rank, hrank, hbound⟩ := h.climbs
    by_cases hjoined : one = other
    · subst hjoined
      have hsame : update group one one = group := by
        rw [update_eq_self_iff, hone]
      rw [hsame]
      exact ⟨rank, hrank, fun x => Nat.le_succ_of_le (hbound x)⟩
    · refine ⟨update rank other (max (rank other) (rank one + 1)), fun x hx => ?_,
        fun x => ?_⟩
      · by_cases hx' : x = one
        · subst hx'
          rw [update_self, update_self, update_of_ne hjoined]
          omega
        · rw [update_of_ne hx'] at hx ⊢
          have hlt := hrank x hx
          have hnot : x ≠ other := fun heq => hx (heq ▸ hother)
          rw [update_of_ne hnot]
          by_cases hup : group x = other
          · rw [hup] at hlt ⊢
            rw [update_self]
            omega
          · rw [update_of_ne hup]
            exact hlt
      · have hle := hbound x
        have hle' := hbound one
        by_cases hx : x = other
        · subst hx
          rw [update_self]
          omega
        · rw [update_of_ne hx]
          omega

/-- **One join** puts the one root under the other. -/
theorem join_spec (h : Labelled group label height) (hsteps : height ≤ steps) (pair : Nat × Nat) :
    Labelled (join steps group pair) (relabelled label pair) (height + 1) := by
  obtain ⟨hone, honetop⟩ := root_spec h hsteps pair.1
  obtain ⟨hother, hothertop⟩ := root_spec hone hsteps pair.2
  rw [join]
  dsimp only
  rw [honetop, hothertop]
  exact hother.put pair

/-- The labels tell apart what the pairs do not connect. -/
def Tells (pairs : List (Nat × Nat)) (label : Nat → Nat) : Prop :=
  ∀ x y, label x = label y ↔ Relation.EqvGen (fun one other => (one, other) ∈ pairs) x y

theorem Tells.join {pairs : List (Nat × Nat)} (h : Tells pairs label) (pair : Nat × Nat) :
    Tells (pairs ++ [pair]) (relabelled label pair) := by
  have hmore : (fun one other => (one, other) ∈ pairs) ≤
      fun one other => (one, other) ∈ pairs ++ [pair] :=
    fun one other hmem => List.mem_append_left [pair] hmem
  have hmono : ∀ {x y}, label x = label y →
      Relation.EqvGen (fun one other => (one, other) ∈ pairs ++ [pair]) x y :=
    fun hsame => Relation.EqvGen.mono hmore _ _ ((h _ _).1 hsame)
  have hpair : Relation.EqvGen (fun one other => (one, other) ∈ pairs ++ [pair]) pair.1 pair.2 :=
    .rel _ _ (by simp)
  intro x y
  constructor
  · intro hsame
    rw [relabelled, relabelled] at hsame
    split at hsame
    · rename_i hx
      split at hsame
      · rename_i hy
        exact hmono (hx.trans hy.symm)
      · exact ((hmono hx).trans _ _ _ hpair).trans _ _ _ (hmono hsame)
    · split at hsame
      · rename_i hy
        exact ((hmono hsame).trans _ _ _ (hpair.symm _ _)).trans _ _ _ ((hmono hy).symm _ _)
      · exact hmono hsame
  · intro hconnected
    induction hconnected with
    | rel one other hmem =>
      rcases List.mem_append.1 hmem with hmem | hmem
      · have hsame := (h one other).2 (.rel _ _ hmem)
        rw [relabelled, relabelled, hsame]
      · obtain rfl := List.mem_singleton.1 hmem
        rw [relabelled, relabelled, if_pos rfl]
        split <;> rfl
    | refl x => rfl
    | symm x y _ ih => exact ih.symm
    | trans x y z _ _ ih ih' => exact ih.trans ih'

/-- **All joins**: two numbers come to one root exactly if the pairs connect them. -/
theorem labelled_joinAll (pairs : List (Nat × Nat)) :
    ∃ label, Labelled (joinAll pairs) label pairs.length ∧ Tells pairs label := by
  have hfold : ∀ (rest done : List (Nat × Nat)) (group : Forest) (label : Nat → Nat),
      Labelled group label done.length → Tells done label →
      ∃ label, Labelled (rest.foldl (join (done ++ rest).length) group) label
        (done ++ rest).length ∧ Tells (done ++ rest) label := by
    intro rest
    induction rest with
    | nil =>
      intro done group label h htells
      rw [List.append_nil]
      exact ⟨label, h, htells⟩
    | cons pair rest ih =>
      intro done group label h htells
      have hnext : Labelled (Library.join (done ++ pair :: rest).length group pair)
          (relabelled label pair) (done.length + 1) := join_spec h (by simp) pair
      have hgoal := ih (done ++ [pair]) _ _ (by simpa using hnext) (htells.join pair)
      simpa using hgoal
  have hnone : Tells [] id := by
    intro x y
    constructor
    · rintro rfl
      exact .refl x
    · intro hconnected
      induction hconnected with
      | rel one other hmem => cases hmem
      | refl x => rfl
      | symm x y _ ih => exact ih.symm
      | trans x y z _ _ ih ih' => exact ih.trans ih'
  rw [joinAll]
  simpa using hfold pairs [] id id labelled_id hnone

end Aiwatcher.Library
