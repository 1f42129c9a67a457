import Aiwatcher.Library.Ways
import Aiwatcher.Strings

/-!
# Aiwatcher.Traced.Joining

How a variant pins joining several replies into one text answer, and how an answer is split along
the pinned words again (`traced.rs`).

A text is the list of its characters, and a place in it is counted in characters, where the code
counts bytes.  No pinned words are empty (`Joining.read_pinned`).
-/

namespace Aiwatcher.Traced

open Library List

abbrev Text := List Char

/-- How a variant pins joining several replies into one text answer: the words between them, and
nothing else. -/
inductive Joining where
  | separator (words : Text)
  | template (literals : List Text)
  deriving DecidableEq

def MOST_JOINS : Nat := 64

/-! ## Reading a pin -/

def isWordChar (c : Char) : Bool := c.isAlphanum || c = '_'

/-- A placeholder after its braces and blanks: a name, blanks, and the closing braces. -/
def placeholderName (text : Text) : Option Text :=
  match text with
  | c :: rest =>
    if c.isAlpha then
      match (rest.dropWhile isWordChar).dropWhile isWhitespace with
      | '}' :: '}' :: after => some after
      | _ => none
    else none
  | [] => none

/-- `\{\{\s*[a-zA-Z][a-zA-Z0-9_]*\s*\}\}` at the start of a text, and what follows it. -/
def placeholder : Text → Option Text
  | '{' :: '{' :: rest => placeholderName (rest.dropWhile isWhitespace)
  | _ => none

theorem length_placeholder_lt {text after : Text} (h : placeholder text = some after) :
    after.length < text.length := by
  rw [placeholder.eq_def] at h
  split at h
  · rename_i rest
    rw [placeholderName.eq_def] at h
    split at h
    · rename_i c name hname
      split at h
      · split at h
        · rename_i after' hafter
          obtain rfl := Option.some.inj h
          have hblank := (dropWhile_suffix isWhitespace (l := rest)).length_le
          have hword := (dropWhile_suffix isWordChar (l := name)).length_le
          have hend := (dropWhile_suffix isWhitespace (l := name.dropWhile isWordChar)).length_le
          rw [hname] at hblank
          rw [hafter] at hend
          simp only [length_cons] at *
          omega
        · cases h
      · cases h
    · cases h
  · cases h

/-- The words around the placeholders; one after a brace is words itself. -/
def literalsFrom (literal text : Text) : List Text :=
  match _h : placeholder text with
  | some after =>
    if literal.getLast? = some '{' then
      literalsFrom (literal ++ text.take (text.length - after.length)) after
    else literal :: literalsFrom [] after
  | none =>
    match text with
    | [] => [literal]
    | c :: rest => literalsFrom (literal ++ [c]) rest
termination_by text.length
decreasing_by
  · exact length_placeholder_lt _h
  · exact length_placeholder_lt _h
  · simp

namespace Joining

/-- Two replies with nothing between them could be split anywhere, and a template with no
placeholder joins nothing. -/
def ofLiterals (literals : List Text) : Option Joining :=
  if 1 < literals.length ∧ ∀ words ∈ literals.tail.dropLast, words ≠ [] then
    some (.template literals)
  else none

def read (pin : Value) : Option Joining :=
  match (pin.get "separator").bind Value.asStr with
  | some words => if words.toList = [] then none else some (.separator words.toList)
  | none =>
    ((pin.get "template").bind Value.asStr).bind fun template =>
      ofLiterals (literalsFrom [] template.toList)

end Joining

/-! ## Splitting an answer -/

/-- `str::find`. -/
def find (words : Text) : Text → Option Nat
  | [] => if words = [] then some 0 else none
  | c :: rest =>
    if words.isPrefixOf (c :: rest) then some 0 else (find words rest).map (· + 1)

/-- Where the words are, also where they overlap, from a place in the text on; or that they are
there more often than is read. -/
def placesFrom (words : Text) (place : Nat) (text : Text) (found : List Nat) :
    Option (List Nat) :=
  match find words text with
  | none => some found
  | some offset =>
    if MOST_JOINS < found.length + 1 then none
    else
      match _h : text.drop offset with
      | [] => some (found ++ [place + offset])
      | _ :: rest =>
        placesFrom words (place + offset + 1) rest (found ++ [place + offset])
termination_by text.length
decreasing_by
  have hlength := congrArg List.length _h
  rw [List.length_drop, List.length_cons] at hlength
  omega

def places (words text : Text) : Option (List Nat) := placesFrom words 0 text []

/-- The text between two places, if it is one of the parts. -/
def piece (text : Text) (isPart : Text → Bool) (start «end» : Nat) : Option Text :=
  let piece := (text.drop start).take («end» - start)
  if !piece.all isWhitespace && isPart piece then some piece else none

/-- The pieces from a place on that end at one of the pinned words, and where these end. -/
def steps (text : Text) (isPart : Text → Bool) (words : Text) (places : List Nat) (start : Nat) :
    List (Nat × Text) :=
  (places.filter (start < ·)).filterMap fun place =>
    (piece text isPart start place).map fun found => (place + words.length, found)

/-- From where pieces may begin, past the words of a template one after the other. -/
def walk (text : Text) (isPart : Text → Bool) («end» : Nat) :
    List Text → List (Nat × List Text) → Option (List (Nat × List Text))
  | [], reached => some reached
  | words :: between, reached =>
    (places words text).bind fun found =>
      walk text isPart «end» between
        (layer (steps text isPart words (found.filter (· ≤ «end»))) reached)

/-- The last piece of a template, from one of the places where it may begin. -/
def closed (text : Text) (isPart : Text → Bool) («end» : Nat)
    (reached : List (Nat × List Text)) : Option (List Text) :=
  reached.findSome? fun place =>
    if place.1 ≤ «end» then
      (piece text isPart place.1 «end»).map fun last => place.2 ++ [last]
    else none

namespace Joining

/-- The pieces of a text between the pinned words. -/
def split (joining : Joining) (text : Text) (isPart : Text → Bool) : Option (List Text) :=
  match joining with
  | separator words =>
    (places words text).bind fun places =>
      search (steps text isPart words places) (fun start => piece text isPart start text.length)
        (text.length + 1) ((∅ : BTreeMap Nat (List Text)).insert 0 [])
  | template [] => none
  | template (first :: rest) =>
    rest.getLast?.bind fun last =>
      if text.length < last.length then none
      else if !first.isPrefixOf text || !last.isSuffixOf text ||
          text.length - last.length < first.length then none
      else
        (walk text isPart (text.length - last.length) rest.dropLast [(first.length, [])]).bind
          (closed text isPart (text.length - last.length))

end Joining

end Aiwatcher.Traced
