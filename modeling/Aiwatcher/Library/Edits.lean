import Aiwatcher.Library.Machine
import Aiwatcher.Library.Programs
import Mathlib.Logic.Function.Basic

/-!
# Aiwatcher.Library.Edits

Programs that read a whole table, change at most one of its entries, and put it back whole, among
others that do the same.  What one of them put is lost when another that read the table before puts
it back after.

* `Edit` — such a program, in its two parts: up to where the table is read, and from there on;
* `Phase` — how far one has got, and the table it goes by;
* `desk` — any number of them, one access at a time in any order;
* `in_force` — where each puts the table back before another changes it, no change is lost.
-/

namespace Aiwatcher.Library

open Prog

/-- A table of the shared state, read and put back whole. -/
structure Cell (σ κ γ ι β : Type) where
  get : σ → κ
  put : γ → σ → σ
  made : γ → κ
  get_put : ∀ c s, get (put c s) = made c
  keys : κ → List ι
  entry : κ → ι → Option β
  mem_keys : ∀ table i, entry table i ≠ none → i ∈ keys table

variable {σ κ γ ι β ε Party : Type} [DecidableEq ι] [DecidableEq Party] {cell : Cell σ κ γ ι β}

/-- The entries of a table, one of which may have been changed. -/
def moved (move : Option (ι × β)) (entry : ι → Option β) (i : ι) : Option β :=
  match move with
  | none => entry i
  | some (j, b) => if j = i then some b else entry i

theorem moved_of_forall_ne {move : Option (ι × β)} {entry : ι → Option β} {i : ι}
    (h : ∀ m ∈ move, m.1 ≠ i) : moved move entry i = entry i := by
  cases move with
  | none => rfl
  | some m => exact if_neg (h m rfl)

theorem moved_some (i : ι) (b : β) (entry : ι → Option β) :
    moved (some (i, b)) entry i = some b := if_pos rfl

/-- What an edit makes of the table it reads. -/
structure Settling (cell : Cell σ κ γ ι β) (ε : Type) where
  move : Option (ι × β)
  settle : κ → Prog σ (Except ε γ)
  looks : ∀ held, (settle held).Looks
  moves : ∀ held, (settle held).Returns fun result => ∀ c, result = .ok c → ∀ i,
    cell.entry (cell.made c) i = moved move (cell.entry held) i

/-- An edit, up to where it reads the table. -/
structure Edit (cell : Cell σ κ γ ι β) (ε : Type) where
  draft : Prog σ (Except ε (Settling cell ε))
  spares : draft.Within fun s t => cell.get t = cell.get s

/-- How far an edit has got. -/
inductive Phase (cell : Cell σ κ γ ι β) (ε : Type) where
  | drafting (rest : Prog σ (Except ε (Settling cell ε)))
  | settling (goes : Settling cell ε) (held : κ) (rest : Prog σ (Except ε γ))
  | ended (outcome : Except ε (Option (ι × β)))

/-- What is left to do once the table is read. -/
def Settling.rest (goes : Settling cell ε) (rest : Prog σ (Except ε γ)) :
    Prog σ (Except ε (Option (ι × β))) := do
  match ← rest with
  | .error error => pure (.error error)
  | .ok c =>
    write (cell.put c)
    pure (.ok goes.move)

def draftRest (rest : Prog σ (Except ε (Settling cell ε))) :
    Prog σ (Except ε (Option (ι × β))) := do
  match ← rest with
  | .error error => pure (.error error)
  | .ok goes =>
    let held ← read cell.get
    goes.rest (goes.settle held)

/-- The whole program of an edit; it answers with the entry it changed. -/
def Edit.program (edit : Edit cell ε) : Prog σ (Except ε (Option (ι × β))) := draftRest edit.draft

namespace Phase

def program : Phase cell ε → Prog σ (Except ε (Option (ι × β)))
  | drafting rest => draftRest rest
  | settling goes _ rest => goes.rest rest
  | ended outcome => pure outcome

/-- The next access of an edit. -/
def advance : Phase cell ε → σ → Phase cell ε × σ
  | drafting (.access change next), s => (drafting (next s), change s)
  | drafting (.done (.error error)), s => (ended (.error error), s)
  | drafting (.done (.ok goes)), s => (settling goes (cell.get s) (goes.settle (cell.get s)), s)
  | settling goes held (.access change next), s => (settling goes held (next s), change s)
  | settling _ _ (.done (.error error)), s => (ended (.error error), s)
  | settling goes _ (.done (.ok c)), s => (ended (.ok goes.move), cell.put c s)
  | ended outcome, s => (ended outcome, s)

theorem turn_program (phase : Phase cell ε) (s : σ) :
    phase.program.turn s = ((phase.advance s).1.program, (phase.advance s).2) := by
  rcases phase with (⟨error | goes⟩ | ⟨change, next⟩) | ⟨goes, held, ⟨error | c⟩ | ⟨change, next⟩⟩ |
    outcome <;> rfl

/-- What is left of an edit does what the edit may do. -/
def Sound : Phase cell ε → Prop
  | drafting rest => rest.Within fun s t => cell.get t = cell.get s
  | settling goes held rest => rest.Looks ∧ rest.Returns fun result => ∀ c, result = .ok c →
      ∀ i, cell.entry (cell.made c) i = moved goes.move (cell.entry held) i
  | ended _ => True

variable {i : ι} {phase : Phase cell ε} {s : σ}

theorem Sound.advance (h : phase.Sound) (s : σ) : (phase.advance s).1.Sound := by
  rcases phase with (⟨error | goes⟩ | ⟨change, next⟩) | ⟨goes, held, ⟨error | c⟩ | ⟨change, next⟩⟩ |
    outcome
  · trivial
  · exact ⟨goes.looks _, goes.moves _⟩
  · exact (h s).2
  · trivial
  · trivial
  · exact ⟨h.1.2 s, h.2 s⟩
  · trivial

/-- An edit that is about to put the table back goes by every entry, but its own, as it stands. -/
def InTime : Phase cell ε → σ → Prop
  | settling goes held (.done (.ok _)), s => ∀ i ∈ cell.keys held ++ cell.keys (cell.get s),
      (∀ move ∈ goes.move, move.1 ≠ i) → cell.entry held i = cell.entry (cell.get s) i
  | _, _ => True

instance [DecidableEq β] : (phase : Phase cell ε) → (s : σ) → Decidable (phase.InTime s)
  | settling goes held (.done (.ok _)), s =>
    inferInstanceAs (Decidable (∀ i ∈ cell.keys held ++ cell.keys (cell.get s),
      (∀ move ∈ goes.move, move.1 ≠ i) → cell.entry held i = cell.entry (cell.get s) i))
  | settling _ _ (.done (.error _)), _ => isTrue trivial
  | settling _ _ (.access _ _), _ => isTrue trivial
  | drafting _, _ => isTrue trivial
  | ended _, _ => isTrue trivial

theorem InTime.entry {goes : Settling cell ε} {held : κ} {c : γ}
    (h : (settling goes held (.done (.ok c))).InTime s) (hi : ∀ move ∈ goes.move, move.1 ≠ i) :
    cell.entry held i = cell.entry (cell.get s) i := by
  by_cases hkeys : i ∈ cell.keys held ++ cell.keys (cell.get s)
  · exact h i hkeys hi
  · rw [List.mem_append, not_or] at hkeys
    have hheld : cell.entry held i = none := by
      by_contra hne
      exact hkeys.1 (cell.mem_keys held i hne)
    have hfound : cell.entry (cell.get s) i = none := by
      by_contra hne
      exact hkeys.2 (cell.mem_keys _ i hne)
    rw [hheld, hfound]

/-- The entry that an edit has changed, once it is over. -/
def changed : Phase cell ε → Option (ι × β)
  | ended (.ok move) => move
  | _ => none

theorem advance_of_changed {move : ι × β} (h : phase.changed = some move) (s : σ) :
    phase.advance s = (phase, s) := by
  rcases phase with rest | ⟨goes, held, rest⟩ | outcome
  · cases h
  · cases h
  · rfl

/-- **An entry** stands through an access that comes in time, or is what that changed. -/
theorem InTime.advance (hsound : phase.Sound) (h : phase.InTime s) {b : β}
    (hentry : cell.entry (cell.get s) i = some b) :
    cell.entry (cell.get (phase.advance s).2) i = some b ∨
      ∃ other, (phase.advance s).1.changed = some (i, other) := by
  rcases phase with (⟨error | goes⟩ | ⟨change, next⟩) | ⟨goes, held, ⟨error | c⟩ | ⟨change, next⟩⟩ |
    outcome
  · exact .inl hentry
  · exact .inl hentry
  · refine .inl ?_
    change cell.entry (cell.get (change s)) i = some b
    rw [(hsound s).1]
    exact hentry
  · exact .inl hentry
  · by_cases hi : ∀ move ∈ goes.move, move.1 ≠ i
    · refine .inl ?_
      change cell.entry (cell.get (cell.put c s)) i = some b
      rw [cell.get_put, hsound.2 c rfl i, moved_of_forall_ne hi, h.entry hi]
      exact hentry
    · push Not at hi
      obtain ⟨⟨_, other⟩, hmove, rfl⟩ := hi
      exact .inr ⟨other, hmove⟩
  · refine .inl ?_
    change cell.entry (cell.get (change s)) i = some b
    rw [hsound.1.1]
    exact hentry
  · exact .inl hentry

theorem Sound.moved (hsound : phase.Sound) {b : β} (h : (phase.advance s).1.changed = some (i, b)) :
    phase.changed = some (i, b) ∧ (phase.advance s).2 = s ∨
      cell.entry (cell.get (phase.advance s).2) i = some b := by
  rcases phase with (⟨error | goes⟩ | ⟨change, next⟩) | ⟨goes, held, ⟨error | c⟩ | ⟨change, next⟩⟩ |
    outcome
  · cases h
  · cases h
  · cases h
  · cases h
  · have hmove : goes.move = some (i, b) := h
    refine .inr ?_
    change cell.entry (cell.get (cell.put c s)) i = some b
    rw [cell.get_put, hsound.2 c rfl i, hmove, moved_some]
  · cases h
  · exact .inl ⟨h, rfl⟩

end Phase

/-! ## Together -/

/-- The edits under way, and the state they share. -/
structure Desk (cell : Cell σ κ γ ι β) (ε Party : Type) where
  phases : Party → Phase cell ε
  state : σ

/-- One access of one party after the other. -/
def desk (cell : Cell σ κ γ ι β) (ε Party : Type) [DecidableEq Party] :
    Machine (Desk cell ε Party) Party Unit where
  step table party :=
    some ([], {
      phases := Function.update table.phases party ((table.phases party).advance table.state).1
      state := ((table.phases party).advance table.state).2 })

def Desk.opening (edits : Party → Edit cell ε) (state : σ) : Desk cell ε Party where
  phases party := .drafting (edits party).draft
  state

/-- What is changed is in force, or changed again. -/
structure Desk.Sound (table : Desk cell ε Party) : Prop where
  sound : ∀ party, (table.phases party).Sound
  force : ∀ party i b, (table.phases party).changed = some (i, b) →
    cell.entry (cell.get table.state) i = some b ∨
      ∃ other ≠ party, ∃ b', (table.phases other).changed = some (i, b')

theorem Desk.Sound.step {table : Desk cell ε Party} (h : table.Sound) {who : Party}
    (htime : (table.phases who).InTime table.state) {out : List Unit} {table' : Desk cell ε Party}
    (hstep : (desk cell ε Party).step table who = some (out, table')) : table'.Sound := by
  cases hstep
  have hphase : ∀ party, Function.update table.phases who
      ((table.phases who).advance table.state).1 party =
        if party = who then ((table.phases who).advance table.state).1 else table.phases party :=
    fun party => Function.update_apply _ _ _ _
  refine ⟨fun party => ?_, fun party i b hmoved => ?_⟩
  · dsimp only
    rw [hphase]
    split
    · exact (h.sound who).advance _
    · exact h.sound party
  · dsimp only at hmoved ⊢
    rw [hphase] at hmoved
    -- whether the entry stood or had been changed again, before the access
    have hbefore : cell.entry (cell.get ((table.phases who).advance table.state).2) i = some b ∨
        (table.phases party).changed = some (i, b) ∧ (party = who →
          ((table.phases who).advance table.state).2 = table.state) := by
      split at hmoved
      · rename_i heq
        subst heq
        exact ((h.sound party).moved hmoved).symm.imp_right fun hsame => ⟨hsame.1, fun _ => hsame.2⟩
      · rename_i hne
        exact .inr ⟨hmoved, fun heq => absurd heq hne⟩
    rcases hbefore with hentry | ⟨hmoved, hsame⟩
    · exact .inl hentry
    · rcases h.force party i b hmoved with hentry | ⟨other, hne, b', hother⟩
      · by_cases hwho : party = who
        · rw [hsame hwho]
          exact .inl hentry
        · refine (htime.advance (h.sound who) hentry).imp_right fun ⟨b', hagain⟩ =>
            ⟨who, Ne.symm hwho, b', ?_⟩
          rwa [hphase, if_pos rfl]
      · refine .inr ⟨other, hne, b', ?_⟩
        rw [hphase]
        split
        · rename_i heq
          rw [← heq, Phase.advance_of_changed hother]
          exact hother
        · exact hother

/-- **No change is lost** where every edit puts the table back in time. -/
theorem in_force (edits : Party → Edit cell ε) (state : σ) (turns : List Party)
    (htime : ∀ step ∈ (desk cell ε Party).run (.opening edits state) turns,
      (step.before.phases step.input).InTime step.before.state) :
    ((desk cell ε Party).last (.opening edits state) turns).Sound := by
  refine Machine.inv_last_of_admits Desk.Sound
    (fun table who => (table.phases who).InTime table.state)
    (fun table who out table' h hin hstep => h.step hin hstep) ⟨fun party => ?_, ?_⟩ htime
  · exact (edits party).spares
  · rintro party i b ⟨⟩

end Aiwatcher.Library
