import Mathlib.Data.Finset.Card
import Mathlib.Logic.Relation

/-!
# Aiwatcher.Library.Worklist

Graph exploration with an explicit stack, over any successor function.

* `explore` — the loop: pop a node, and visit, mark and push each successor not
  yet seen;
* `trace` — the visits it makes, each as (the node popped, the successor found).

`explore_eq_foldl` separates the two: exploring *is* folding the visitor over the
trace.  The trace names every successor once (`trace_nodup`).
-/

namespace Aiwatcher.Library.Worklist

open Relation List

variable {α β : Type} [DecidableEq α] (next : α → List α)

/-! ## The loop -/

/-- One successor: passed over when seen, otherwise pushed, marked and visited. -/
def discover (visit : β → α → α → β) (current : α) (s : List α × List α × β) (child : α) :
    List α × List α × β :=
  if child ∈ s.2.1 then s else (child :: s.1, child :: s.2.1, visit s.2.2 current child)

/-- Pop a node and discover its successors, until the stack or the fuel is empty. -/
def explore (visit : β → α → α → β) : Nat → List α → List α → β → β
  | 0, _, _, acc => acc
  | _ + 1, [], _, acc => acc
  | fuel + 1, current :: stack, seen, acc =>
    let (stack, seen, acc) := (next current).foldl (discover visit current) (stack, seen, acc)
    explore visit fuel stack seen acc

/-! ## The visits -/

/-- The members of a list that are not seen, first occurrences only. -/
def fresh : List α → List α → List α
  | [], _ => []
  | c :: cs, seen => if c ∈ seen then fresh cs seen else c :: fresh cs (c :: seen)

/-- The visits of `explore`, in order: the node popped and the successor found. -/
def trace : Nat → List α → List α → List (α × α)
  | 0, _, _ => []
  | _ + 1, [], _ => []
  | fuel + 1, current :: stack, seen =>
    let new := fresh (next current) seen
    new.map (current, ·) ++ trace fuel (new.reverse ++ stack) (new.reverse ++ seen)

/-- The successors an exploration finds, in order. -/
def reached (fuel : Nat) (stack seen : List α) : List α := (trace next fuel stack seen).map Prod.snd

variable {next}

theorem mem_fresh {c : α} {cs seen : List α} : c ∈ fresh cs seen ↔ c ∈ cs ∧ c ∉ seen := by
  induction cs generalizing seen with
  | nil => simp [fresh]
  | cons d ds ih =>
    by_cases hd : d ∈ seen
    · rw [fresh, if_pos hd, ih, mem_cons]
      constructor
      · rintro ⟨hc, hs⟩
        exact ⟨Or.inr hc, hs⟩
      · rintro ⟨rfl | hc, hs⟩
        · exact absurd hd hs
        · exact ⟨hc, hs⟩
    · rw [fresh, if_neg hd, mem_cons, ih, mem_cons]
      by_cases hcd : c = d
      · simp [hcd, hd]
      · simp [hcd]

theorem nodup_fresh (cs seen : List α) : (fresh cs seen).Nodup := by
  induction cs generalizing seen with
  | nil => exact nodup_nil
  | cons d ds ih =>
    by_cases hd : d ∈ seen
    · rw [fresh, if_pos hd]
      exact ih seen
    · rw [fresh, if_neg hd, nodup_cons]
      exact ⟨fun h => (mem_fresh.mp h).2 mem_cons_self, ih _⟩

theorem foldl_discover (visit : β → α → α → β) (current : α) (cs stack seen : List α) (acc : β) :
    cs.foldl (discover visit current) (stack, seen, acc) =
      ((fresh cs seen).reverse ++ stack, (fresh cs seen).reverse ++ seen,
        (fresh cs seen).foldl (fun b c => visit b current c) acc) := by
  induction cs generalizing stack seen acc with
  | nil => rfl
  | cons d ds ih =>
    by_cases hd : d ∈ seen
    · have hstep : discover visit current (stack, seen, acc) d = (stack, seen, acc) := if_pos hd
      rw [foldl_cons, hstep, ih, fresh, if_pos hd]
    · have hstep : discover visit current (stack, seen, acc) d =
          (d :: stack, d :: seen, visit acc current d) := if_neg hd
      rw [foldl_cons, hstep, ih, fresh, if_neg hd]
      simp

/-- **Exploring is folding the visitor over the trace.** -/
theorem explore_eq_foldl (visit : β → α → α → β) (fuel : Nat) (stack seen : List α) (acc : β) :
    explore next visit fuel stack seen acc =
      (trace next fuel stack seen).foldl (fun b p => visit b p.1 p.2) acc := by
  induction fuel generalizing stack seen acc with
  | zero => rfl
  | succ fuel ih =>
    cases stack with
    | nil => rfl
    | cons current stack =>
      simp only [explore, trace, foldl_discover, foldl_append, foldl_map]
      exact ih _ _ _

/-! ## What the trace names -/

theorem reached_cons (fuel : Nat) (current : α) (stack seen : List α) :
    reached next (fuel + 1) (current :: stack) seen =
      fresh (next current) seen ++ reached next fuel ((fresh (next current) seen).reverse ++ stack)
        ((fresh (next current) seen).reverse ++ seen) := by
  simp [reached, trace, Function.comp_def]

/-- No successor is found twice, and none that was seen is found. -/
theorem trace_nodup (fuel : Nat) (stack seen : List α) :
    (reached next fuel stack seen).Nodup ∧ ∀ c ∈ reached next fuel stack seen, c ∉ seen := by
  induction fuel generalizing stack seen with
  | zero => exact ⟨nodup_nil, by simp [reached, trace]⟩
  | succ fuel ih =>
    cases stack with
    | nil => exact ⟨nodup_nil, by simp [reached, trace]⟩
    | cons current stack =>
      obtain ⟨hnd, hns⟩ := ih ((fresh (next current) seen).reverse ++ stack)
        ((fresh (next current) seen).reverse ++ seen)
      rw [reached_cons]
      refine ⟨nodup_append.mpr ⟨nodup_fresh _ _, hnd, ?_⟩, ?_⟩
      · rintro a ha _ hb rfl
        exact hns a hb (mem_append_left _ (mem_reverse.mpr ha))
      · intro c hc
        rcases mem_append.mp hc with hc | hc
        · exact (mem_fresh.mp hc).2
        · exact fun hs => hns c hc (mem_append_right _ hs)

/-! ## What it reaches -/

/-- How many rounds are left: the nodes on the stack, and those that may still get there. -/
def left (all stack seen : List α) : Nat := stack.length + (all.toFinset \ seen.toFinset).card

end Aiwatcher.Library.Worklist
