import Mathlib.Data.List.Basic

/-!
# Aiwatcher.Library.Saturation

Rules that give facts once the facts they need are known, fired in passes over the list of them
until a pass fires none (`saturate`).

`Derived` is the least set of facts closed under the rules.  If no rule is disabled by more facts,
what is known at the end is exactly that set, and the rules fired are exactly those it enables
(`mem_saturate`, `fired_saturate`), in whatever order they are listed.
-/

namespace Aiwatcher.Library

open List

variable {α : Type}

structure Rule (α : Type) where
  enabled : List α → Bool
  gives : List α

/-- The least set that holds `start` and what the rules it enables give. -/
inductive Derived (rules : List (Rule α)) (start : List α) : α → Prop
  | start {fact : α} : fact ∈ start → Derived rules start fact
  | fired {rule : Rule α} {facts : List α} {fact : α} : rule ∈ rules →
      (∀ known ∈ facts, Derived rules start known) → rule.enabled facts = true →
      fact ∈ rule.gives → Derived rules start fact

/-- Facts of the set enable the rule. -/
def Enabled (rules : List (Rule α)) (start : List α) (rule : Rule α) : Prop :=
  ∃ facts, (∀ known ∈ facts, Derived rules start known) ∧ rule.enabled facts = true

/-- No rule is disabled by more facts. -/
def Growing (rules : List (Rule α)) : Prop :=
  ∀ rule ∈ rules, ∀ facts more : List α, facts ⊆ more → rule.enabled facts = true →
    rule.enabled more = true

/-! ## Passes -/

/-- One pass over the rules, with what has fired: the rules, what is known, and whether one fired. -/
def pass : List (Rule α × Bool) → List α → List (Rule α × Bool) × List α × Bool
  | [], known => ([], known, false)
  | (rule, fired) :: rest, known =>
    if !fired && rule.enabled known then
      let (rest, known, _) := pass rest (known ++ rule.gives)
      ((rule, true) :: rest, known, true)
    else
      let (rest, known, added) := pass rest known
      ((rule, fired) :: rest, known, added)

def saturateFrom : Nat → List (Rule α × Bool) → List α → List (Rule α × Bool) × List α
  | 0, marks, known => (marks, known)
  | rounds + 1, marks, known =>
    let (marks, known, added) := pass marks known
    if added then saturateFrom rounds marks known else (marks, known)

/-- Passes until one fires nothing; there are no more of them than rules, and one. -/
def saturate (rules : List (Rule α)) (start : List α) : List (Rule α × Bool) × List α :=
  saturateFrom (rules.length + 1) (rules.map fun rule => (rule, false)) start

def firings (marks : List (Rule α × Bool)) : Nat := marks.countP (·.2)

/-- What a pass makes of the marks and of what is known. -/
structure Passed (marks : List (Rule α × Bool)) (known : List α)
    (marks' : List (Rule α × Bool)) (known' : List α) (added : Bool) : Prop where
  rules : marks'.map (·.1) = marks.map (·.1)
  grows : known ⊆ known'
  fires : ∀ rule, (rule, true) ∈ marks' → (rule, true) ∈ marks ∨
    ∃ facts, facts ⊆ known' ∧ rule.enabled facts = true ∧ rule.gives ⊆ known'
  keeps : added = true → firings marks < firings marks'
  still : added = false → marks' = marks ∧ known' = known ∧
    ∀ rule, (rule, false) ∈ marks → rule.enabled known = false

theorem Passed.firings_le {marks marks' : List (Rule α × Bool)} {known known' : List α}
    {added : Bool} (h : Passed marks known marks' known' added) :
    firings marks ≤ firings marks' := by
  cases added with
  | true => exact Nat.le_of_lt (h.keeps rfl)
  | false => exact Nat.le_of_eq (congrArg firings (h.still rfl).1.symm)

theorem passed_pass (marks : List (Rule α × Bool)) (known : List α) :
    Passed marks known (pass marks known).1 (pass marks known).2.1 (pass marks known).2.2 := by
  induction marks generalizing known with
  | nil => exact ⟨rfl, List.Subset.refl _, by simp [pass], by simp [pass], by simp [pass]⟩
  | cons first rest ih =>
    obtain ⟨rule, fired⟩ := first
    rw [pass]
    split
    · rename_i hfires
      rw [Bool.and_eq_true, Bool.not_eq_true'] at hfires
      obtain ⟨rfl, hfires⟩ := hfires
      have h := ih (known ++ rule.gives)
      have hgives : rule.gives ⊆ (pass rest (known ++ rule.gives)).2.1 :=
        fun fact hfact => h.grows (mem_append_right known hfact)
      have hgrows : known ⊆ (pass rest (known ++ rule.gives)).2.1 :=
        fun fact hfact => h.grows (mem_append_left rule.gives hfact)
      refine ⟨by simpa using h.rules, hgrows, fun other hother => ?_, fun _ => ?_, by simp⟩
      · rcases mem_cons.1 hother with hsame | hother
        · cases hsame
          exact .inr ⟨known, hgrows, hfires, hgives⟩
        · rcases h.fires other hother with hbefore | hnow
          · exact .inl (mem_cons_of_mem _ hbefore)
          · exact .inr hnow
      · have hle := h.firings_le
        simp only [firings, countP_cons] at hle ⊢
        simp
        omega
    · rename_i hnot
      have h := ih known
      refine ⟨by simpa using h.rules, h.grows, fun other hother => ?_, fun hadded => ?_,
        fun hadded => ?_⟩
      · rcases mem_cons.1 hother with hsame | hother
        · cases hsame
          exact .inl mem_cons_self
        · rcases h.fires other hother with hbefore | hnow
          · exact .inl (mem_cons_of_mem _ hbefore)
          · exact .inr hnow
      · have hlt := h.keeps hadded
        simp only [firings, countP_cons] at hlt ⊢
        omega
      · obtain ⟨hmarks, hknown, hstill⟩ := h.still hadded
        refine ⟨congrArg ((rule, fired) :: ·) hmarks, hknown, fun other hother => ?_⟩
        rcases mem_cons.1 hother with hsame | hother
        · cases hsame
          simpa using hnot
        · exact hstill other hother

/-! ## The least set -/

section

variable {rules : List (Rule α)} {start : List α}

variable {known : List α} {marks : List (Rule α × Bool)}

theorem derived_of_mem_pass (hrules : ∀ mark ∈ marks, mark.1 ∈ rules)
    (hknown : ∀ fact ∈ known, Derived rules start fact) :
    ∀ fact ∈ (pass marks known).2.1, Derived rules start fact := by
  induction marks generalizing known with
  | nil => exact hknown
  | cons first rest ih =>
    obtain ⟨rule, fired⟩ := first
    have hrest : ∀ mark ∈ rest, mark.1 ∈ rules :=
      fun mark hmark => hrules mark (mem_cons_of_mem _ hmark)
    rw [pass]
    split
    · rename_i hfires
      rw [Bool.and_eq_true] at hfires
      refine ih hrest fun fact hfact => ?_
      rcases mem_append.1 hfact with hbefore | hgiven
      · exact hknown fact hbefore
      · exact .fired (hrules (rule, fired) mem_cons_self) hknown hfires.2 hgiven
    · exact ih hrest hknown

/-- What is known is derived, and what has fired has given. -/
structure Saturating (rules : List (Rule α)) (start : List α) (marks : List (Rule α × Bool))
    (known : List α) : Prop where
  listed : marks.map (·.1) = rules
  holds : start ⊆ known
  derived : ∀ fact ∈ known, Derived rules start fact
  fired : ∀ rule, (rule, true) ∈ marks → rule.gives ⊆ known ∧ Enabled rules start rule

theorem saturating_start : Saturating rules start (rules.map fun rule => (rule, false)) start where
  listed := by simp [Function.comp_def]
  holds := List.Subset.refl _
  derived fact hfact := .start hfact
  fired rule hrule := by simp at hrule

theorem Saturating.pass (h : Saturating rules start marks known) :
    Saturating rules start (Library.pass marks known).1 (Library.pass marks known).2.1 := by
  have hpass := passed_pass marks known
  have hderived : ∀ fact ∈ (Library.pass marks known).2.1, Derived rules start fact := by
    refine derived_of_mem_pass (fun mark hmark => ?_) h.derived
    rw [← h.listed]
    exact mem_map_of_mem hmark
  refine ⟨hpass.rules.trans h.listed, fun fact hfact => hpass.grows (h.holds hfact), hderived,
    fun rule hrule => ?_⟩
  rcases hpass.fires rule hrule with hbefore | ⟨facts, hfacts, henabled, hgives⟩
  · exact ⟨fun fact hfact => hpass.grows ((h.fired rule hbefore).1 hfact), (h.fired rule hbefore).2⟩
  · exact ⟨hgives, facts, fun fact hfact => hderived fact (hfacts hfact), henabled⟩

/-- No rule is left that what is known enables. -/
def Saturated (marks : List (Rule α × Bool)) (known : List α) : Prop :=
  ∀ rule, (rule, false) ∈ marks → rule.enabled known = false

/-- **The run**: with as many rounds as rules are left, and one, it ends saturated. -/
theorem Saturating.saturateFrom {rounds : Nat} (h : Saturating rules start marks known)
    (hrounds : rules.length < firings marks + rounds) :
    Saturating rules start (saturateFrom rounds marks known).1 (saturateFrom rounds marks known).2 ∧
      Saturated (Library.saturateFrom rounds marks known).1
        (Library.saturateFrom rounds marks known).2 := by
  induction rounds generalizing marks known with
  | zero =>
    have hle : firings marks ≤ marks.length := countP_le_length
    have hlength := congrArg List.length h.listed
    rw [length_map] at hlength
    omega
  | succ rounds ih =>
    have hpass := passed_pass marks known
    rw [Library.saturateFrom]
    dsimp only
    split
    · rename_i hadded
      exact ih h.pass (by have hlt := hpass.keeps hadded; omega)
    · rename_i hstill
      rw [Bool.not_eq_true] at hstill
      obtain ⟨hmarks, hknown, hnone⟩ := hpass.still hstill
      refine ⟨h.pass, fun rule hrule => ?_⟩
      rw [hmarks] at hrule
      rw [hknown]
      exact hnone rule hrule

theorem saturating_saturate (rules : List (Rule α)) (start : List α) :
    Saturating rules start (saturate rules start).1 (saturate rules start).2 ∧
      Saturated (saturate rules start).1 (saturate rules start).2 :=
  saturating_start.saturateFrom (by omega)

variable (hgrowing : Growing rules)

include hgrowing

theorem mem_known_of_derived (h : Saturating rules start marks known)
    (hsaturated : Saturated marks known) {fact : α} (hfact : Derived rules start fact) :
    fact ∈ known := by
  induction hfact with
  | start hfact => exact h.holds hfact
  | @fired rule facts fact hrule hfacts henabled hgiven ih =>
    have hnow := hgrowing rule hrule facts known ih henabled
    have hmark : rule ∈ marks.map (·.1) := h.listed ▸ hrule
    obtain ⟨⟨rule, fired⟩, hmem, rfl⟩ := mem_map.1 hmark
    cases fired with
    | true => exact (h.fired rule hmem).1 hgiven
    | false =>
      rw [hsaturated rule hmem] at hnow
      cases hnow

/-- **What is known at the end** is the least set. -/
theorem mem_saturate {fact : α} : fact ∈ (saturate rules start).2 ↔ Derived rules start fact :=
  ⟨(saturating_saturate rules start).1.derived fact,
    mem_known_of_derived hgrowing (saturating_saturate rules start).1
      (saturating_saturate rules start).2⟩

/-- **The rules fired** are those the least set enables. -/
theorem fired_saturate {place : Nat} {rule : Rule α} (h : rules[place]? = some rule) :
    ∃ fired, (saturate rules start).1[place]? = some (rule, fired) ∧
      (fired = true ↔ Enabled rules start rule) := by
  obtain ⟨hsat, hend⟩ := saturating_saturate rules start
  have hmark : ((saturate rules start).1.map (·.1))[place]? = some rule := by rw [hsat.listed, h]
  rw [getElem?_map, Option.map_eq_some_iff] at hmark
  obtain ⟨⟨rule, fired⟩, hmark, rfl⟩ := hmark
  refine ⟨fired, hmark, fun hfired => ?_, fun ⟨facts, hfacts, henabled⟩ => ?_⟩
  · subst hfired
    exact (hsat.fired rule (List.mem_of_getElem? hmark)).2
  · have hnow := hgrowing rule (List.mem_of_getElem? h) facts (saturate rules start).2
      (fun fact hfact => (mem_saturate hgrowing).2 (hfacts fact hfact)) henabled
    cases fired with
    | true => rfl
    | false =>
      rw [hend rule (List.mem_of_getElem? hmark)] at hnow
      cases hnow

end

/-! ## Rules listed otherwise -/

theorem Derived.mono {rules rules' : List (Rule α)} {start start' : List α} {fact : α}
    (hrules : rules ⊆ rules') (hstart : start ⊆ start') (h : Derived rules start fact) :
    Derived rules' start' fact := by
  induction h with
  | start hfact => exact .start (hstart hfact)
  | fired hrule _ henabled hgiven ih => exact .fired (hrules hrule) ih henabled hgiven

end Aiwatcher.Library
