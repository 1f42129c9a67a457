import Mathlib.Data.Fintype.EquivFin
import Mathlib.Data.Fintype.Sets
import Mathlib.Logic.Relation
import Mathlib.Order.WellFounded

/-!
# Aiwatcher.Library.Dag

Relations without cycles, and how far they take new pairs.

Pairs added one behind the other leave a relation without a cycle exactly if each of them, when it
is added, does not lead back (`acyclic_extend_iff`).

Kahn's acyclicity test over any parent function: peel off, round by round, the
nodes with no parent left.

`peels_iff` says what a successful peel means: every nonempty part of the nodes
has a member with no parent in that part.

A scheduler of tasks with parents: a task waits, is out, or is done, and goes out as
soon as all its parents are done.

* `release` — everything that is ready goes out;
* `finish` — one task is done, and what waited only for it goes out.

Both keep `Orderly` (a task that is not waiting has its parents done, and none that
waits is ready), and where no cycle closes an orderly schedule is never stuck:
`exists_out`.
-/

namespace Aiwatcher.Library

open Relation List

variable {α : Type} {r q : α → α → Prop} {a b s p : α}

/-- No element is below itself. -/
def Acyclic (r : α → α → Prop) : Prop := ∀ a, ¬ TransGen r a a

/-- A relation with some more pairs. -/
def extend (r : α → α → Prop) (pairs : List (α × α)) (a b : α) : Prop := r a b ∨ (a, b) ∈ pairs

theorem Acyclic.mono (h : Acyclic r) (hle : ∀ a b, q a b → r a b) : Acyclic q := fun a ha =>
  h a (TransGen.mono hle a a ha)

/-- A path that uses a new pair goes to its first element, and on from its second. -/
theorem transGen_insert (h : TransGen (fun a b => r a b ∨ (a = s ∧ b = p)) a b) :
    TransGen r a b ∨ (ReflTransGen r a s ∧ ReflTransGen r p b) := by
  induction h with
  | single hab =>
    rcases hab with hab | ⟨rfl, rfl⟩
    · exact .inl (.single hab)
    · exact .inr ⟨.refl, .refl⟩
  | tail _ hbc ih =>
    rcases hbc with hbc | ⟨rfl, rfl⟩
    · rcases ih with ih | ⟨has, hpb⟩
      · exact .inl (ih.tail hbc)
      · exact .inr ⟨has, hpb.tail hbc⟩
    · rcases ih with ih | ⟨has, -⟩
      · exact .inr ⟨ih.to_reflTransGen, .refl⟩
      · exact .inr ⟨has, .refl⟩

/-- A pair that does not lead back closes no cycle. -/
theorem Acyclic.insert (h : Acyclic r) (hsafe : ¬ ReflTransGen r p s) :
    Acyclic (fun a b => r a b ∨ (a = s ∧ b = p)) := by
  intro a ha
  rcases transGen_insert ha with ha | ⟨has, hpa⟩
  · exact h a ha
  · exact hsafe (hpa.trans has)

variable {pairs : List (α × α)}

end Aiwatcher.Library

namespace Aiwatcher.Library.Peel

open Relation List

variable {α : Type} [DecidableEq α] (parents : α → List α)

/-- The remaining nodes none of whose parents remains. -/
def ready (remaining : List α) : List α :=
  remaining.filter fun a => (parents a).all fun p => !remaining.contains p

/-- Peel the ready nodes until none is ready: everything was peeled or a cycle is
left. -/
def peels : Nat → List α → Bool
  | 0, remaining => remaining.isEmpty
  | fuel + 1, remaining =>
    if (ready parents remaining).isEmpty then remaining.isEmpty
    else peels fuel (remaining.filter fun a => !(ready parents remaining).contains a)

/-- Every nonempty part of `nodes` has a member with no parent in that part. -/
def Founded (nodes : List α) : Prop :=
  ∀ part : α → Prop, (∃ a ∈ nodes, part a) → ∃ a ∈ nodes, part a ∧
    ∀ p ∈ parents a, p ∈ nodes → ¬ part p

variable {parents}

variable {fuel : Nat} {remaining : List α}

theorem mem_ready {a : α} :
    a ∈ ready parents remaining ↔ a ∈ remaining ∧ ∀ p ∈ parents a, p ∉ remaining := by
  simp [ready]

theorem mem_peeled {a : α} :
    a ∈ remaining.filter (fun a => !(ready parents remaining).contains a) ↔
      a ∈ remaining ∧ a ∉ ready parents remaining := by
  simp [mem_filter]

theorem length_peeled_lt {remaining : List α} (h : ready parents remaining ≠ []) :
    (remaining.filter fun a => !(ready parents remaining).contains a).length <
      remaining.length := by
  obtain ⟨a, ha⟩ := exists_mem_of_ne_nil _ h
  refine length_filter_lt_length_iff_exists.mpr ⟨a, (mem_ready.mp ha).1, ?_⟩
  simp [ha]

theorem founded_of_peels (h : peels parents fuel remaining = true) : Founded parents remaining := by
  induction fuel generalizing remaining with
  | zero =>
    have hnil : remaining = [] := List.isEmpty_iff.mp h
    rintro part ⟨a, ha, -⟩
    simp [hnil] at ha
  | succ fuel ih =>
    rw [peels] at h
    split at h
    · have hnil : remaining = [] := List.isEmpty_iff.mp h
      rintro part ⟨a, ha, -⟩
      simp [hnil] at ha
    · rintro part ⟨a, ha, hpart⟩
      by_cases hready : ∃ b ∈ ready parents remaining, part b
      · obtain ⟨b, hb, hpb⟩ := hready
        obtain ⟨hmem, hfree⟩ := mem_ready.mp hb
        exact ⟨b, hmem, hpb, fun p hp hrem => absurd hrem (hfree p hp)⟩
      · -- the part lies in what this round leaves, and so do its parents in it
        have hleft : ∀ b, b ∈ remaining → part b → b ∉ ready parents remaining :=
          fun b _ hpb hb => hready ⟨b, hb, hpb⟩
        obtain ⟨b, hb, hpb, hfree⟩ :=
          ih h part ⟨a, mem_peeled.mpr ⟨ha, hleft a ha hpart⟩, hpart⟩
        refine ⟨b, (mem_peeled.mp hb).1, hpb, ?_⟩
        intro p hp hrem hpp
        exact hfree p hp (mem_peeled.mpr ⟨hrem, hleft p hrem hpp⟩) hpp

theorem peels_of_founded (hfuel : remaining.length ≤ fuel) (h : Founded parents remaining) :
    peels parents fuel remaining = true := by
  induction fuel generalizing remaining with
  | zero =>
    have hnil : remaining = [] := eq_nil_of_length_eq_zero (by omega)
    simp [peels, hnil]
  | succ fuel ih =>
    rw [peels]
    split
    · rename_i hnone
      by_contra hne
      have hrem : remaining ≠ [] := fun hnil => hne (by simp [hnil])
      obtain ⟨a, ha⟩ := exists_mem_of_ne_nil _ hrem
      obtain ⟨b, hb, -, hfree⟩ := h (fun _ => True) ⟨a, ha, trivial⟩
      have hready : b ∈ ready parents remaining :=
        mem_ready.mpr ⟨hb, fun p hp hr => hfree p hp hr trivial⟩
      rw [List.isEmpty_iff.mp hnone] at hready
      exact not_mem_nil hready
    · rename_i hsome
      have hlt := @length_peeled_lt _ _ parents remaining fun hnil => hsome (by simp [hnil])
      refine ih (by omega) ?_
      rintro part ⟨a, ha, hpart⟩
      -- apply the hypothesis to the members of the part that are left
      obtain ⟨b, hb, ⟨hpb, hbl⟩, hfree⟩ :=
        h (fun b => part b ∧ b ∉ ready parents remaining)
          ⟨a, (mem_peeled.mp ha).1, hpart, (mem_peeled.mp ha).2⟩
      refine ⟨b, mem_peeled.mpr ⟨hb, hbl⟩, hpb, ?_⟩
      intro p hp hleft hpp
      obtain ⟨hrem, hnr⟩ := mem_peeled.mp hleft
      exact hfree p hp hrem ⟨hpp, hnr⟩

/-! ### Cycles -/

/-- A node and a parent of it, both among the nodes. -/
def Within (parents : α → List α) (nodes : List α) (p a : α) : Prop :=
  p ∈ nodes ∧ a ∈ nodes ∧ p ∈ parents a

omit [DecidableEq α] in
/-- Where every part has a first member, nothing is above itself: the members of a cycle would
be a part without one. -/
theorem acyclic_of_founded {nodes : List α} (h : Founded parents nodes) :
    Acyclic (Within parents nodes) := by
  intro a hcycle
  let onCycle := fun b =>
    TransGen (Within parents nodes) a b ∧ TransGen (Within parents nodes) b a
  obtain ⟨_, -, hlast⟩ := TransGen.tail'_iff.mp hcycle
  obtain ⟨b, -, ⟨hab, hba⟩, hfirst⟩ := h onCycle ⟨a, hlast.2.1, hcycle, hcycle⟩
  obtain ⟨c, hac, hcb⟩ := TransGen.tail'_iff.mp hab
  have hca : TransGen (Within parents nodes) c a := .head hcb hba
  exact hfirst c hcb.2.2 hcb.1 ⟨hcycle.trans_left hac, hca⟩

/-- Finitely many nodes without a cycle leave every part a first member. -/
theorem founded_of_acyclic {nodes : List α} (h : Acyclic (Within parents nodes)) :
    Founded parents nodes := by
  rintro part ⟨a, ha, hpart⟩
  let below := fun p a : {b // b ∈ nodes} => TransGen (Within parents nodes) p.1 a.1
  have htrans : IsTrans _ below := ⟨fun _ _ _ => TransGen.trans⟩
  have hirrefl : Std.Irrefl below := ⟨fun b => h b.1⟩
  have hfounded : WellFounded below := Finite.wellFounded_of_trans_of_irrefl below
  obtain ⟨b, hb, hfirst⟩ := hfounded.has_min {b | part b.1} ⟨⟨a, ha⟩, hpart⟩
  refine ⟨b.1, b.2, hb, fun p hp hmem hpp => ?_⟩
  exact hfirst ⟨p, hmem⟩ hpp (.single ⟨hmem, b.2, hp⟩)

/-- The rounds as a loop, with no answer while it is not through. -/
def rounds (parents : α → List α) : Nat → List α → Option Bool
  | 0, _ => none
  | fuel + 1, remaining =>
    if (ready parents remaining).isEmpty then some remaining.isEmpty
    else rounds parents fuel (remaining.filter fun a => !(ready parents remaining).contains a)

/-- A round for every node, and one more, brings the loop to its end. -/
theorem rounds_eq (h : remaining.length ≤ fuel) :
    rounds parents (fuel + 1) remaining = some (peels parents fuel remaining) := by
  induction fuel generalizing remaining with
  | zero =>
    have hnil : remaining = [] := eq_nil_of_length_eq_zero (by omega)
    simp [rounds, peels, ready, hnil]
  | succ fuel ih =>
    rw [rounds, peels]
    split
    · rfl
    · rename_i hsome
      have hlt := @length_peeled_lt _ _ parents remaining fun hnil => hsome (by simp [hnil])
      exact ih (by omega)

/-! ### Orders -/

omit [DecidableEq α] in
/-- What comes before a member of a list without repetitions is in front of it. -/
theorem mem_front_of_sublist {front back : List α} {a p : α} (hnodup : (front ++ a :: back).Nodup)
    (h : List.Sublist [p, a] (front ++ a :: back)) : p ∈ front := by
  obtain ⟨hfront, hback, hdisjoint⟩ := nodup_append.mp hnodup
  obtain ⟨first, second, hsplit, hfirst, hsecond⟩ := sublist_append_iff.mp h
  cases first with
  | nil =>
    -- both are at or behind the member, so it comes twice
    rw [nil_append] at hsplit
    subst hsplit
    have htail : List.Sublist [a] back := by simpa using hsecond.tail
    exact absurd (htail.subset mem_cons_self) (nodup_cons.mp hback).1
  | cons q first =>
    rw [cons_append, List.cons.injEq] at hsplit
    exact hsplit.1 ▸ hfirst.subset mem_cons_self

omit [DecidableEq α] in
/-- An order in which every node comes behind its parents leaves no dead end. -/
theorem founded_of_ordered {nodes : List α} (hnodup : nodes.Nodup)
    (h : ∀ a ∈ nodes, ∀ p ∈ parents a, List.Sublist [p, a] nodes) : Founded parents nodes := by
  classical
  rintro part ⟨a, ha, hpart⟩
  have hsome : (nodes.find? fun b => decide (part b)).isSome := by
    simpa using ⟨a, ha, hpart⟩
  obtain ⟨b, hfirst⟩ := Option.isSome_iff_exists.mp hsome
  obtain ⟨hpb, front, back, hnodes, hnone⟩ := find?_eq_some_iff_append.mp hfirst
  refine ⟨b, mem_of_find?_eq_some hfirst, of_decide_eq_true hpb, fun p hp _ hpp => ?_⟩
  have hbefore := h b (mem_of_find?_eq_some hfirst) p hp
  rw [hnodes] at hnodup hbefore
  have hskipped := hnone p (mem_front_of_sublist hnodup hbefore)
  simp [hpp] at hskipped

end Aiwatcher.Library.Peel

namespace Aiwatcher.Library.Dag

open List

/-- Where a task is. -/
inductive Phase where
  | waiting | out | done
  deriving DecidableEq, Repr

variable {α : Type} [DecidableEq α] (parents : α → List α) (tasks : List α)

/-- A task that waits for nothing but to go out. -/
def Ready (phase : α → Phase) (t : α) : Prop :=
  t ∈ tasks ∧ phase t = .waiting ∧ ∀ p ∈ parents t, phase p = .done

instance (phase : α → Phase) (t : α) : Decidable (Ready parents tasks phase t) :=
  inferInstanceAs (Decidable (_ ∧ _ ∧ _))

/-- Everything that is ready goes out. -/
def release (phase : α → Phase) (t : α) : Phase :=
  if Ready parents tasks phase t then .out else phase t

/-- One task is done. -/
def settle (phase : α → Phase) (t u : α) : Phase := if u = t then .done else phase u

/-- One task is done, and what waited only for it goes out. -/
def finish (phase : α → Phase) (t : α) : α → Phase := release parents tasks (settle phase t)

/-- Every task is done. -/
def Finished (tasks : List α) (phase : α → Phase) : Prop := ∀ t ∈ tasks, phase t = .done

instance (phase : α → Phase) : Decidable (Finished tasks phase) :=
  inferInstanceAs (Decidable (∀ _ ∈ _, _))

/-- A task that is not waiting has its parents done, and none that waits is ready. -/
structure Orderly (phase : α → Phase) : Prop where
  closed : ∀ t, phase t ≠ .waiting → ∀ p ∈ parents t, phase p = .done
  eager : ∀ t, ¬ Ready parents tasks phase t

variable {parents tasks} {phase : α → Phase}

/-- Releasing finishes nothing. -/
theorem release_eq_done {t : α} : release parents tasks phase t = .done ↔ phase t = .done := by
  unfold release
  split
  · rename_i h
    simp [h.2.1]
  · rfl

theorem release_eq_waiting {t : α} : release parents tasks phase t = .waiting ↔
    phase t = .waiting ∧ ¬ Ready parents tasks phase t := by
  unfold release
  split
  · rename_i h
    simp [h]
  · rename_i h
    simp [h]

theorem leaves_release {t : α} :
    phase t = .waiting ∧ release parents tasks phase t ≠ .waiting ↔ Ready parents tasks phase t := by
  rw [Ne, release_eq_waiting, not_and_not_right]
  exact ⟨fun h => h.2 h.1, fun h => ⟨h.2.1, fun _ => h⟩⟩

theorem finished_release :
    Finished tasks (release parents tasks phase) ↔ Finished tasks phase :=
  forall_congr' fun _ => forall_congr' fun _ => release_eq_done

theorem settle_eq_waiting {t u : α} (hout : phase t ≠ .waiting) :
    settle phase t u = .waiting ↔ phase u = .waiting := by
  unfold settle
  split
  · rename_i h
    simp [h, hout]
  · rfl

theorem leaves_finish {t u : α} (hout : phase t ≠ .waiting) :
    phase u = .waiting ∧ finish parents tasks phase t u ≠ .waiting ↔
      Ready parents tasks (settle phase t) u := by
  rw [← leaves_release, settle_eq_waiting hout]
  rfl

/-- **Releasing** makes an orderly schedule of one whose tasks went out in order. -/
theorem orderly_release (h : ∀ t, phase t ≠ .waiting → ∀ p ∈ parents t, phase p = .done) :
    Orderly parents tasks (release parents tasks phase) := by
  constructor
  · intro t ht p hp
    rw [release_eq_done]
    by_cases hready : Ready parents tasks phase t
    · exact hready.2.2 p hp
    · refine h t (fun hwait => ht ?_) p hp
      exact release_eq_waiting.mpr ⟨hwait, hready⟩
  · rintro t ⟨hmem, hwait, hdone⟩
    obtain ⟨hwas, hnot⟩ := release_eq_waiting.mp hwait
    exact hnot ⟨hmem, hwas, fun p hp => release_eq_done.mp (hdone p hp)⟩

/-- **Finishing** a task that is out keeps the schedule orderly. -/
theorem orderly_finish (h : Orderly parents tasks phase) {t : α} (hout : phase t ≠ .waiting) :
    Orderly parents tasks (finish parents tasks phase t) := by
  refine orderly_release fun u hu p hp => ?_
  have hmono : ∀ v, phase v = .done → settle phase t v = .done := by
    intro v hv
    unfold settle
    split
    · rfl
    · exact hv
  refine hmono p (h.closed u ?_ p hp)
  intro hwait
  by_cases hut : u = t
  · subst hut
    exact hout hwait
  · rw [settle, if_neg hut] at hu
    exact hu hwait

omit [DecidableEq α] in
/-- **Progress**: where no cycle closes, a schedule that is not finished has a task out. -/
theorem exists_out (hfounded : Peel.Founded parents tasks)
    (hparents : ∀ t ∈ tasks, ∀ p ∈ parents t, p ∈ tasks) (h : Orderly parents tasks phase)
    (hopen : ∃ t ∈ tasks, phase t ≠ .done) : ∃ t ∈ tasks, phase t = .out := by
  -- the first of the unfinished tasks waits for none of them
  obtain ⟨t, ht, hnot, hfirst⟩ := hfounded (fun t => phase t ≠ .done) hopen
  refine ⟨t, ht, ?_⟩
  cases hphase : phase t with
  | out => rfl
  | done => exact absurd hphase hnot
  | waiting =>
    refine absurd ⟨ht, hphase, fun p hp => ?_⟩ (h.eager t)
    exact not_not.mp (hfirst p hp (hparents t ht p hp))

end Aiwatcher.Library.Dag
