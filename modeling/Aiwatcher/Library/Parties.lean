import Aiwatcher.Library.Machine
import Mathlib.Logic.Function.Basic

/-!
# Aiwatcher.Library.Parties

Parties that share one record: each of them reads it, works, and writes it in steps of its own,
and any of them may stop between two steps and begin anew.  Besides the record there is a store
of other things that work may change.

* `Program` — what a party does next, as a function of the task it is at;
* `parties` — any number of parties, in any order of steps, telling each touch of the record;
* `Seen` — how a party last saw the record, and what the record has become since;
* `keeps_run` — facts of the record, of the store and of each task that every access keeps.
-/

namespace Aiwatcher.Library

/-- How a party touches the record. -/
inductive How where
  | looked
  | took
  | wrote
  deriving DecidableEq, Repr

structure Touch (Party Record : Type) where
  party : Party
  how : How
  record : Record

/-- What a party does next.  A put is refused by the store or lands. -/
inductive Access (Record Side Answer Task : Type) where
  | look (next : Record → Answer → Option Task)
  | put (how : How) (record : Record) (next : Option Task) (refused : Option Task)
  | work (does : Side → Answer → Side × Option Task)

structure Program (Party Record Side Answer Task : Type) where
  begins : Party → Task
  access : Party → Task → Access Record Side Answer Task

/-- The record, the store beside it, and where each party is. -/
structure World (Party Record Side Task : Type) where
  record : Record
  side : Side
  tasks : Party → Option Task

/-- A party comes, does what is next, finds its write refused, or is gone. -/
inductive Turn (Party Answer : Type) where
  | enter (party : Party)
  | go (party : Party) (answer : Answer)
  | refuse (party : Party)
  | crash (party : Party)
  deriving DecidableEq

variable {Party Record Side Answer Task : Type} [DecidableEq Party]

/-- A party is at another task, or done. -/
def World.at (world : World Party Record Side Task) (party : Party) (task : Option Task) :
    World Party Record Side Task :=
  { world with tasks := Function.update world.tasks party task }

def parties (program : Program Party Record Side Answer Task) :
    Machine (World Party Record Side Task) (Turn Party Answer) (Touch Party Record) where
  step world
    | .enter party =>
      match world.tasks party with
      | some _ => none
      | none => some ([], world.at party (some (program.begins party)))
    | .go party answer =>
      match world.tasks party with
      | none => none
      | some task =>
        match program.access party task with
        | .look next =>
          some ([⟨party, .looked, world.record⟩], world.at party (next world.record answer))
        | .put how record next _ =>
          some ([⟨party, how, record⟩], { world with record := record }.at party next)
        | .work does =>
          some ([], { world with side := (does world.side answer).1 }.at party
            (does world.side answer).2)
    | .refuse party =>
      match world.tasks party with
      | none => none
      | some task =>
        match program.access party task with
        | .put _ _ _ refused => some ([], world.at party refused)
        | _ => none
    | .crash party =>
      match world.tasks party with
      | none => none
      | some _ => some ([], world.at party none)

/-- What a turn can do. -/
inductive Turned (program : Program Party Record Side Answer Task)
    (world : World Party Record Side Task) : Turn Party Answer →
    List (Touch Party Record) → World Party Record Side Task → Prop
  | entered {party} : world.tasks party = none →
      Turned program world (.enter party) [] (world.at party (some (program.begins party)))
  | looked {party task answer next} : world.tasks party = some task →
      program.access party task = .look next →
      Turned program world (.go party answer) [⟨party, .looked, world.record⟩]
        (world.at party (next world.record answer))
  | put {party task answer how record next refused} : world.tasks party = some task →
      program.access party task = .put how record next refused →
      Turned program world (.go party answer) [⟨party, how, record⟩]
        ({ world with record := record }.at party next)
  | worked {party task answer does} : world.tasks party = some task →
      program.access party task = .work does →
      Turned program world (.go party answer) []
        ({ world with side := (does world.side answer).1 }.at party (does world.side answer).2)
  | refused {party task how record next refused} : world.tasks party = some task →
      program.access party task = .put how record next refused →
      Turned program world (.refuse party) [] (world.at party refused)
  | crashed {party task} : world.tasks party = some task →
      Turned program world (.crash party) [] (world.at party none)

theorem turned_of_step {program : Program Party Record Side Answer Task}
    {world world' : World Party Record Side Task} {turn : Turn Party Answer}
    {out : List (Touch Party Record)} (h : (parties program).step world turn = some (out, world')) :
    Turned program world turn out world' := by
  cases turn with
  | enter party =>
    simp only [parties] at h
    split at h
    · cases h
    · rename_i hnone
      cases h
      exact .entered hnone
  | go party answer =>
    simp only [parties] at h
    split at h
    · cases h
    · rename_i task htask
      split at h
      · rename_i next haccess
        cases h
        exact .looked htask haccess
      · rename_i how record next refused haccess
        cases h
        exact .put htask haccess
      · rename_i does haccess
        cases h
        exact .worked htask haccess
  | refuse party =>
    simp only [parties] at h
    split at h
    · cases h
    · rename_i task htask
      split at h
      · rename_i haccess
        cases h
        exact .refused htask haccess
      · cases h
  | crash party =>
    simp only [parties] at h
    split at h
    · cases h
    · rename_i htask
      cases h
      exact .crashed htask

/-! ## What every access keeps -/

namespace World

variable (world : World Party Record Side Task)

theorem tasks_at (party other : Party) (task : Option Task) :
    (world.at party task).tasks other = if other = party then task else world.tasks other :=
  Function.update_apply _ _ _ _

/-- Nobody is at anything yet. -/
def idle (record : Record) (side : Side) : World Party Record Side Task :=
  ⟨record, side, fun _ => none⟩

end World

/-- The answer of a turn, where it has one, is as expected. -/
def Turn.Admits (admits : Answer → Prop) : Turn Party Answer → Prop
  | .go _ answer => admits answer
  | _ => True

/-- The record is good, and every task fits, as far as the store beside them goes. -/
structure Kept (good : Side → Record → Prop) (fits : Side → Party → Task → Prop)
    (world : World Party Record Side Task) : Prop where
  record : good world.side world.record
  tasks : ∀ party task, world.tasks party = some task → fits world.side party task

/-- Every access of a program keeps records good and tasks fitting. -/
structure Keeps (program : Program Party Record Side Answer Task) (admits : Answer → Prop)
    (good : Side → Record → Prop) (fits : Side → Party → Task → Prop) : Prop where
  begins : ∀ side party, fits side party (program.begins party)
  looks : ∀ {side party task next record answer after}, fits side party task →
    program.access party task = .look next → good side record → admits answer →
      next record answer = some after → fits side party after
  puts : ∀ {side party task how record next refused}, fits side party task →
    program.access party task = .put how record next refused → good side record ∧
      (∀ after ∈ next, fits side party after) ∧ ∀ after ∈ refused, fits side party after
  works : ∀ {side party task does answer}, fits side party task →
    program.access party task = .work does → admits answer →
      (∀ record, good side record → good (does side answer).1 record) ∧
      (∀ other at', fits side other at' → fits (does side answer).1 other at') ∧
      ∀ after ∈ (does side answer).2, fits (does side answer).1 party after

section

variable {program : Program Party Record Side Answer Task} {admits : Answer → Prop}
  {good : Side → Record → Prop} {fits : Side → Party → Task → Prop}
  {world world' : World Party Record Side Task}

theorem Kept.at (h : Kept good fits world) {party : Party} {task : Option Task}
    (htask : ∀ after ∈ task, fits world.side party after) : Kept good fits (world.at party task) where
  record := h.record
  tasks := by
    intro other after hafter
    rw [World.tasks_at] at hafter
    split at hafter
    · rename_i heq
      subst heq
      exact htask after hafter
    · exact h.tasks other after hafter

/-- **Step lemma**: a turn keeps what the program keeps. -/
theorem Kept.step (hkeeps : Keeps program admits good fits) (h : Kept good fits world)
    {turn : Turn Party Answer} (hadmits : turn.Admits admits) {out : List (Touch Party Record)}
    (hstep : (parties program).step world turn = some (out, world')) : Kept good fits world' := by
  cases turned_of_step hstep with
  | entered =>
    refine h.at fun after hafter => ?_
    cases hafter
    exact hkeeps.begins _ _
  | looked htask haccess =>
    exact h.at fun after hafter =>
      hkeeps.looks (h.tasks _ _ htask) haccess h.record hadmits hafter
  | @put party task answer how record next refused htask haccess =>
    obtain ⟨hgood, hnext, -⟩ := hkeeps.puts (h.tasks _ _ htask) haccess
    have hput : Kept good fits { world with record := record } := ⟨hgood, h.tasks⟩
    exact hput.at hnext
  | @worked party task answer does htask haccess =>
    obtain ⟨hgood, hothers, hnext⟩ := hkeeps.works (h.tasks _ _ htask) haccess hadmits
    have hwork : Kept good fits { world with side := (does world.side answer).1 } :=
      ⟨hgood _ h.record, fun other task htask => hothers other task (h.tasks other task htask)⟩
    exact hwork.at hnext
  | refused htask haccess => exact h.at (hkeeps.puts (h.tasks _ _ htask) haccess).2.2
  | crashed => exact h.at (by simp)

/-- **Run lemma**: in every run, every state keeps what the program keeps. -/
theorem keeps_run (hkeeps : Keeps program admits good fits) {record : Record} {side : Side}
    (hgood : good side record) {turns : List (Turn Party Answer)}
    (hadmits : ∀ turn ∈ turns, turn.Admits admits) :
    ∀ st ∈ (parties program).run (World.idle record side) turns,
      Kept good fits st.before ∧ Kept good fits st.after := by
  have hidle : Kept good fits (World.idle record side : World Party Record Side Task) :=
    ⟨hgood, fun _ _ htask => by cases htask⟩
  exact Machine.inv_of_mem_run (Kept good fits) (fun _ turn => turn.Admits admits)
    (fun world turn out world' hkept hadmits hstep => hkept.step hkeeps hadmits hstep)
    hidle fun st hst => hadmits st.input (Machine.input_mem_of_mem_run hst)

end

end Aiwatcher.Library
