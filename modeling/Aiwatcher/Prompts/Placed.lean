import Aiwatcher.Prompts.Model

/-!
# Aiwatcher.Prompts.Placed

Which placeholders of a text its variables are read from.

A placeholder is an opening, a name that blanks may stand around, and a closing, at any place
that no third brace stands before.  `variables_in_order` joins an opening to the first closing
behind it and goes on after that, so a placeholder behind an opening that is not closed is part
of what it drops, and its name is not read there.
-/

namespace Aiwatcher.Prompts

open List Option

/-- The name of the placeholder at the start of a text: what is between its braces, which no
closing is inside of. -/
def placeholderAt : List Char → Option String
  | '{' :: '{' :: text =>
    (splitPair '}' text).bind fun found =>
      let name := trim (String.ofList found.1)
      if isVariable name.toList then some name else none
  | _ => none

/-- Whether the last pair of braces is an opening, with one more character. -/
def opened (last : Option Char) (isOpen : Bool) (c : Char) : Bool :=
  if last = some c then c = '{' || (c ≠ '}' && isOpen) else isOpen

/-- The placeholders of what is left of a text, each with whether the last pair of braces before it
is an opening. -/
def placedFrom : Option Char → Bool → List Char → List (String × Bool)
  | _, _, [] => []
  | last, isOpen, c :: rest =>
    let found := if last = some '{' then none else placeholderAt (c :: rest)
    (found.map fun name => (name, isOpen)).toList ++
      placedFrom (some c) (opened last isOpen c) rest

def placed (text : String) : List (String × Bool) := placedFrom none false text.toList

/-- A name behind the ones found, unless it is one of them. -/
def note (found : List String) (name : String) : List String :=
  if name ∈ found then found else found ++ [name]

/-- Names in the order of their first occurrence. -/
def firsts (names : List String) : List String := names.foldl note []

/-- The names of the placeholders of a text. -/
def placeholders (text : String) : List String := firsts ((placed text).map (·.1))

/-- The names of those that do not stand behind an opening that is not closed. -/
def reachedFrom (last : Option Char) (isOpen : Bool) (text : List Char) : List String :=
  ((placedFrom last isOpen text).filter (!·.2)).map (·.1)

example : placeholders "\x7b\x7b city \x7d\x7d \x7b\x7blanguage\x7d\x7d \x7b\x7b\x7b raw \x7d\x7d" =
    ["city", "language"] := by decide +kernel

/-! ## The scan -/

theorem length_of_splitPair {c : Char} {text before after : List Char}
    (h : splitPair c text = some (before, after)) : after.length < text.length := by
  induction text generalizing before with
  | nil => simp [splitPair] at h
  | cons a text ih =>
    cases text with
    | nil => simp [splitPair] at h
    | cons b rest =>
      rw [splitPair] at h
      split at h
      · obtain ⟨-, rfl⟩ : [] = before ∧ rest = after := by simpa using h
        exact Nat.lt_of_succ_lt (Nat.lt_succ_self (rest.length + 1))
      · obtain ⟨found, hfound, heq⟩ := map_eq_some_iff.mp h
        obtain ⟨-, rfl⟩ := Prod.mk.inj heq
        exact Nat.lt_succ_of_lt (ih hfound)

section

variable {last : Option Char} {c : Char} {text : List Char}

theorem reachedFrom_open : reachedFrom last true (c :: text) =
    reachedFrom (some c) (opened last true c) text := by
  simp only [reachedFrom, placedFrom, filter_append]
  cases (if last = some '{' then none else placeholderAt (c :: text)) <;> simp

theorem reachedFrom_closed : reachedFrom last false (c :: text) =
    (if last = some '{' then [] else (placeholderAt (c :: text)).toList) ++
      reachedFrom (some c) (opened last false c) text := by
  simp only [reachedFrom, placedFrom, filter_append, map_append]
  congr 1
  split <;> cases placeholderAt (c :: text) <;> simp

theorem reachedFrom_true (h : ¬(last = some '}' ∧ text.head? = some '}')) :
    reachedFrom last true text =
      (splitPair '}' text).elim [] fun found => reachedFrom (some '}') false found.2 := by
  induction text generalizing last with
  | nil => rfl
  | cons c text ih =>
    rw [reachedFrom_open]
    cases text with
    | nil => simp [splitPair, reachedFrom, placedFrom]
    | cons d rest =>
      have hopen : opened last true c = true := by grind [opened]
      rw [hopen, splitPair]
      split
      · rename_i hpair
        obtain ⟨rfl, rfl⟩ := hpair
        rw [reachedFrom_open]
        simp [opened]
      · rename_i hpair
        rw [ih (by simpa using hpair)]
        cases splitPair '}' (d :: rest) <;> rfl

theorem reachedFrom_false (h : ¬(last = some '{' ∧ text.head? = some '{')) :
    reachedFrom last false text =
      (splitPair '{' text).elim [] fun found =>
        (if found.1.getLast?.or last = some '{' then []
          else (placeholderAt ('{' :: '{' :: found.2)).toList) ++
          reachedFrom (some '{') true found.2 := by
  induction text generalizing last with
  | nil => rfl
  | cons c text ih =>
    rw [reachedFrom_closed]
    cases text with
    | nil => simp [splitPair, reachedFrom, placedFrom, placeholderAt]
    | cons d rest =>
      have hclosed : opened last false c = false := by grind [opened]
      rw [hclosed, splitPair]
      by_cases hpair : c = '{' ∧ d = '{'
      · obtain ⟨rfl, rfl⟩ := hpair
        have hlast : last ≠ some '{' := by simpa using h
        rw [reachedFrom_closed]
        simp [opened, hlast]
      · have hnone : placeholderAt (c :: d :: rest) = none := by
          unfold placeholderAt
          split
          · simp_all
          · rfl
        rw [if_neg hpair, ih (by simpa using hpair), hnone]
        cases splitPair '{' (d :: rest) <;> simp [getLast?_cons]

end

/-- **The scan is the reading**: what `variables_in_order` finds is the placeholders that do not
stand behind an opening that is not closed. -/
theorem variablesFrom_eq {fuel : Nat} {last : Option Char} {text : List Char}
    (found : List String) (hfuel : text.length ≤ fuel) (h : last ≠ some '{') :
    variablesFrom fuel last text found = (reachedFrom last false text).foldl note found := by
  induction fuel generalizing last text found with
  | zero =>
    obtain rfl := eq_nil_of_length_eq_zero (Nat.le_zero.mp hfuel)
    rfl
  | succ fuel ih =>
    rw [variablesFrom, reachedFrom_false (by simp [h])]
    cases hopening : splitPair '{' text with
    | none => rfl
    | some opening =>
      obtain ⟨front, after⟩ := opening
      dsimp only [elim_some]
      rw [reachedFrom_true (by simp), placeholderAt]
      cases hclosing : splitPair '}' after with
      | none => simp
      | some closing =>
        obtain ⟨inner, rest⟩ := closing
        have hafter := length_of_splitPair hopening
        have hrest := length_of_splitPair hclosing
        have hgoes : ∀ found, variablesFrom fuel (some '}') rest found =
            (reachedFrom (some '}') false rest).foldl note found :=
          fun found => ih found (by omega) (by decide)
        dsimp only [elim_some, bind_some]
        rw [foldl_append, ← hgoes]
        by_cases hbrace : front.getLast?.or last = some '{'
        · simp only [hbrace, true_or, if_true, foldl_nil]
        · cases isVariable (trim (String.ofList inner)).toList with
          | false => simp [hbrace]
          | true =>
            simp only [hbrace, not_true, false_or, if_true, if_false, toList_some,
              foldl_cons, foldl_nil, note]
            split <;> rfl

theorem variablesInOrder_eq (text : String) :
    variablesInOrder text = firsts (reachedFrom none false text.toList) :=
  @variablesFrom_eq text.length none text.toList [] String.length_toList.le (by decide)

/-- **Which texts no placeholder is overlooked in**: those whose placeholders behind an opening
that is not closed are no first ones that count. -/
theorem placeholders_found_iff (text : String) :
    (variablesInOrder text = placeholders text ↔
      firsts (((placed text).filter (!·.2)).map (·.1)) = firsts ((placed text).map (·.1))) ∧
      ((∀ found ∈ placed text, found.2 = false) → variablesInOrder text = placeholders text) ∧
      ∀ candidate, variablesInOrder text = placeholders text →
        variablesInOrder candidate = placeholders candidate →
          (variablesLost text candidate = [] ↔
            ∀ name ∈ placeholders text, name ∈ placeholders candidate) := by
  rw [variablesInOrder_eq]
  refine ⟨Iff.rfl, fun h => ?_, fun candidate htext hcandidate => ?_⟩
  · have hall : (placed text).filter (!·.2) = placed text :=
      List.filter_eq_self.mpr fun found hfound => by simp [h found hfound]
    exact congrArg (fun names => firsts (names.map (·.1))) hall
  · rw [← htext, ← hcandidate, ← variablesInOrder_eq]
    simp [variablesLost, variablesOf]

/-- An opening with nothing behind it, and a placeholder. -/
def loneOpening : String := "\x7b\x7b \x7b\x7b city \x7d\x7d"

/-- A lone opening takes a placeholder's closing. -/
theorem placeholder_overlooked : placeholders loneOpening = ["city"] ∧
    variablesInOrder loneOpening = [] ∧ variablesLost loneOpening "" = [] := by decide +kernel

end Aiwatcher.Prompts
