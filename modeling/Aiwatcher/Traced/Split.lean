import Aiwatcher.Traced.Joining

/-!
# Aiwatcher.Traced.Split

Splitting a joined answer along the pinned words finds a way of doing so exactly if there is one.

* `Joining.Splits` — pieces that are accepted and not blank, and give back the text;
* `places_eq` — every place of the words is found, also where they overlap;
* `split_exact` — what is found is such a splitting, and one is found if there is one.
-/

namespace Aiwatcher.Traced

open Library List Option Std

/-! ## What a splitting is -/

/-- The places where a text goes on with some words. -/
def spots (words : Text) : Text → List Nat
  | [] => []
  | c :: rest =>
    if words.isPrefixOf (c :: rest) then 0 :: (spots words rest).map (· + 1)
    else (spots words rest).map (· + 1)

def occurrences (words text : Text) : Nat := (spots words text).length

/-- A piece that is accepted, and not blank. -/
def Accepted (isPart : Text → Bool) (piece : Text) : Prop :=
  piece.all isWhitespace = false ∧ isPart piece = true

/-- A template's words, with a piece in each placeholder. -/
def woven : List Text → List Text → Text
  | words :: literals, piece :: pieces => words ++ (piece ++ woven literals pieces)
  | words :: _, [] => words
  | [], _ => []

namespace Joining

/-- The words a text is searched for. -/
def words : Joining → List Text
  | separator words => [words]
  | template literals => literals.tail.dropLast

/-- Some pieces, joined in the pinned words, are a text. -/
def Joins (text : Text) (pieces : List Text) : Joining → Prop
  | separator words => pieces ≠ [] ∧ words.intercalate pieces = text
  | template literals => pieces.length + 1 = literals.length ∧ woven literals pieces = text

structure Splits (joining : Joining) (text : Text) (isPart : Text → Bool) (pieces : List Text) :
    Prop where
  accepted : ∀ piece ∈ pieces, Accepted isPart piece
  joins : joining.Joins text pieces

/-- No words that a text is searched for are empty, and a template has a placeholder. -/
inductive Pinned : Joining → Prop where
  | separator {words : Text} (h : words ≠ []) : Pinned (separator words)
  | template {first last : Text} {between : List Text} (h : ∀ words ∈ between, words ≠ []) :
      Pinned (template (first :: (between ++ [last])))

theorem read_pinned {pin : Value} {joining : Joining} (h : read pin = some joining) :
    joining.Pinned := by
  rw [read] at h
  split at h
  · split at h
    · cases h
    · rename_i hne
      exact some.inj h ▸ .separator hne
  · obtain ⟨template, -, h⟩ := bind_eq_some_iff.mp h
    rw [ofLiterals] at h
    split at h
    · rename_i hliterals
      obtain rfl := some.inj h
      obtain ⟨hlength, hwords⟩ := hliterals
      cases hcons : literalsFrom [] template.toList with
      | nil =>
        rw [hcons] at hlength
        cases hlength
      | cons first rest =>
        rw [hcons] at hlength hwords
        have hne : rest ≠ [] := by
          rintro rfl
          exact absurd hlength (by simp)
        obtain ⟨between, last, rfl⟩ := (eq_nil_or_concat' rest).resolve_left hne
        rw [tail_cons, dropLast_concat] at hwords
        exact .template hwords
    · cases h

end Joining

/-! ## Places -/

theorem mem_spots {words text : Text} {p : Nat} :
    p ∈ spots words text ↔ p < text.length ∧ words <+: text.drop p := by
  induction text generalizing p with
  | nil => simp [spots]
  | cons c rest ih =>
    cases p with
    | zero =>
      rw [spots]
      split <;> simp_all [ isPrefixOf_iff_prefix]
    | succ p =>
      rw [spots]
      split <;> simp [ih]

theorem find_eq_none {words text : Text} (h : find words text = none) :
    spots words text = [] := by
  induction text with
  | nil => rfl
  | cons c rest ih =>
    rw [find] at h
    split at h
    · cases h
    · rename_i hstarts
      rw [spots, if_neg hstarts, ih (map_eq_none_iff.mp h)]
      rfl

/-- Past the first place of the words, its first character and no more is left out. -/
theorem find_eq_some {words text : Text} (hne : words ≠ []) {offset : Nat}
    (h : find words text = some offset) : ∃ c rest, text.drop offset = c :: rest ∧
      spots words text = offset :: (spots words rest).map (offset + 1 + ·) := by
  induction text generalizing offset with
  | nil =>
    rw [find, if_neg hne] at h
    cases h
  | cons c rest ih =>
    rw [find] at h
    split at h
    · rename_i hstarts
      obtain rfl := some.inj h
      refine ⟨c, rest, rfl, ?_⟩
      rw [spots, if_pos hstarts]
      simp [Nat.add_comm]
    · rename_i hstarts
      obtain ⟨o, ho, rfl⟩ := map_eq_some_iff.mp h
      obtain ⟨c', rest', hdrop, hspots⟩ := ih ho
      refine ⟨c', rest', hdrop, ?_⟩
      rw [spots, if_neg hstarts, hspots]
      simp only [map_cons, List.map_map]
      congr 2
      funext p
      simp only [Function.comp_apply]
      omega

theorem placesFrom_eq {words : Text} (hne : words ≠ []) (text : Text) {place : Nat}
    {found : List Nat} (hfound : found.length ≤ MOST_JOINS) :
    placesFrom words place text found =
      if found.length + (spots words text).length ≤ MOST_JOINS then
        some (found ++ (spots words text).map (place + ·))
      else none := by
  induction hlength : text.length using Nat.strong_induction_on generalizing text place found with
  | _ n ih =>
    rw [placesFrom]
    split
    · rename_i hnone
      simp [find_eq_none hnone, hfound]
    · rename_i offset hsome
      obtain ⟨c, rest, hdrop, hspots⟩ := find_eq_some hne hsome
      have hcount : (spots words text).length = (spots words rest).length + 1 := by
        rw [hspots, length_cons, length_map]
      split
      · rename_i hmany
        rw [if_neg (by omega)]
      · rename_i hfew
        have hshorter := congrArg List.length hdrop
        rw [length_drop, length_cons] at hshorter
        split
        · rename_i hnil
          rw [hdrop] at hnil
          cases hnil
        · rename_i c' rest' hcons
          rw [hdrop] at hcons
          obtain ⟨rfl, rfl⟩ := List.cons.inj hcons
          rw [ih rest.length (by omega) rest (by rw [length_append]; simp; omega) rfl,
            length_append, length_singleton, hcount]
          have hplaces : found ++ [place + offset] ++
              (spots words rest).map (place + offset + 1 + ·) =
                found ++ (spots words text).map (place + ·) := by
            rw [hspots, append_assoc]
            simp only [map_cons, List.map_map, singleton_append]
            congr 3
            funext p
            simp only [Function.comp_apply]
            omega
          rw [hplaces]
          congr 1
          rw [eq_iff_iff]
          omega

/-- **Every place** of the words is found, if there are not too many. -/
theorem places_eq {words text : Text} (hne : words ≠ [])
    (hfew : occurrences words text ≤ MOST_JOINS) : places words text = some (spots words text) := by
  rw [places, placesFrom_eq hne text (Nat.zero_le _), if_pos (by simpa [occurrences] using hfew)]
  simp

/-! ## Pieces -/

section Pieces

variable {text : Text} {isPart : Text → Bool}

theorem Accepted.ne_nil {piece : Text} (h : Accepted isPart piece) : piece ≠ [] := by
  rintro rfl
  cases h.1

theorem piece_eq_some {start «end» : Nat} {found : Text} :
    piece text isPart start «end» = some found ↔
      (text.drop start).take («end» - start) = found ∧ Accepted isPart found := by
  rw [piece]
  split
  · rename_i h
    rw [Bool.and_eq_true, Bool.not_eq_true'] at h
    rw [some.injEq]
    exact ⟨fun heq => ⟨heq, heq ▸ h⟩, And.left⟩
  · rename_i h
    rw [Bool.and_eq_true, Bool.not_eq_true'] at h
    exact ⟨by rintro ⟨⟩, fun ⟨heq, hpart⟩ => absurd (heq ▸ hpart) h⟩

theorem piece_end {start : Nat} {found : Text} :
    piece text isPart start text.length = some found ↔
      text.drop start = found ∧ Accepted isPart found := by
  rw [piece_eq_some, take_of_length_le (by rw [length_drop])]

variable {words : Text} {places : List Nat} {p q : Nat} {found : Text}

theorem of_mem_steps (hplaces : ∀ place ∈ places, place ∈ spots words text)
    (h : (q, found) ∈ steps text isPart words places p) :
    Accepted isPart found ∧ text.drop p = found ++ (words ++ text.drop q) ∧
      p < q ∧ q ≤ text.length := by
  obtain ⟨place, hmem, hstep⟩ := mem_filterMap.mp h
  obtain ⟨hplace, hlt⟩ := mem_filter.mp hmem
  obtain ⟨found', hfound, heq⟩ := map_eq_some_iff.mp hstep
  obtain ⟨rfl, rfl⟩ := Prod.mk.inj heq
  obtain ⟨htake, haccepted⟩ := piece_eq_some.mp hfound
  obtain ⟨hwithin, rest, hrest⟩ := mem_spots.mp (hplaces place hplace)
  have hlt := of_decide_eq_true hlt
  have hlength := congrArg List.length hrest
  rw [length_append, length_drop] at hlength
  refine ⟨haccepted, ?_, by omega, by omega⟩
  have hdrop : text.drop (place + words.length) = rest := by
    rw [← drop_drop, ← hrest, drop_left]
  have hplaceDrop : text.drop place = (text.drop p).drop (place - p) := by
    rw [drop_drop, Nat.add_sub_cancel' hlt.le]
  rw [hdrop, hrest, hplaceDrop, ← htake, take_append_drop]

theorem mem_steps (hp : p ≤ text.length) {rest : Text} (hne : words ≠ [])
    (haccepted : Accepted isPart found) (htext : text.drop p = found ++ (words ++ rest))
    (hplaces : p + found.length ∈ spots words text → p + found.length ∈ places) :
    (p + found.length + words.length, found) ∈ steps text isPart words places p ∧
      text.drop (p + found.length + words.length) = rest := by
  have hdrop : text.drop (p + found.length) = words ++ rest := by
    rw [← drop_drop, htext, drop_left]
  have hpos := length_pos_iff.mpr haccepted.ne_nil
  have hwords := length_pos_iff.mpr hne
  have hlength := congrArg List.length htext
  rw [length_drop, length_append, length_append] at hlength
  have hspot : p + found.length ∈ spots words text :=
    mem_spots.mpr ⟨by omega, rest, hdrop.symm⟩
  refine ⟨mem_filterMap.mpr ⟨p + found.length, mem_filter.mpr ⟨hplaces hspot, ?_⟩, ?_⟩, ?_⟩
  · exact decide_eq_true (by omega)
  · have hpiece : piece text isPart p (p + found.length) = some found := by
      rw [piece_eq_some, htext, Nat.add_sub_cancel_left, take_left]
      exact ⟨rfl, haccepted⟩
    rw [hpiece]
    rfl
  · rw [← drop_drop, hdrop, drop_left]

end Pieces

/-! ## A separator -/

section Separator

variable {text : Text} {isPart : Text → Bool} {words : Text}

theorem of_way {p q : Nat} {pieces : List Text}
    (h : Way (steps text isPart words (spots words text)) p pieces q) :
    (∀ piece ∈ pieces, Accepted isPart piece) ∧
      text.drop p = (pieces.flatMap (· ++ words)) ++ text.drop q := by
  induction h with
  | here p => simp
  | step hstep rest ih =>
    obtain ⟨haccepted, htext, -⟩ := of_mem_steps (fun _ => id) hstep
    refine ⟨forall_mem_cons.mpr ⟨haccepted, ih.1⟩, ?_⟩
    rw [htext, ih.2, flatMap_cons]
    simp only [append_assoc]

theorem exists_way (hne : words ≠ []) {pieces : List Text}
    (haccepted : ∀ piece ∈ pieces, Accepted isPart piece) {p : Nat} (hp : p ≤ text.length)
    {rest : Text} (htext : text.drop p = (pieces.flatMap (· ++ words)) ++ rest) :
    ∃ q, Way (steps text isPart words (spots words text)) p pieces q ∧ text.drop q = rest := by
  induction pieces generalizing p with
  | nil => exact ⟨p, .here p, htext⟩
  | cons piece pieces ih =>
    rw [flatMap_cons, append_assoc, append_assoc] at htext
    obtain ⟨hstep, hdrop⟩ := mem_steps hp hne (haccepted piece mem_cons_self) htext id
    obtain ⟨-, -, -, hle⟩ := of_mem_steps (fun _ => id) hstep
    obtain ⟨q, hway, hrest⟩ := ih (fun other hother =>
      haccepted other (mem_cons_of_mem _ hother)) hle hdrop
    exact ⟨q, .step hstep hway, hrest⟩

theorem intercalate_concat (words : Text) (pieces : List Text) (last : Text) :
    words.intercalate (pieces ++ [last]) = pieces.flatMap (· ++ words) ++ last := by
  induction pieces with
  | nil => simp [List.intercalate]
  | cons piece pieces ih =>
    cases pieces with
    | nil => simp [List.intercalate]
    | cons next pieces =>
      rw [cons_append, cons_append, intercalate_cons_cons, ← cons_append, ih]
      simp only [flatMap_cons, append_assoc]

theorem reached_start (text : Text) (isPart : Text → Bool) (words : Text) :
    Reached (steps text isPart words (spots words text)) 0 text.length (text.length + 1)
      ((∅ : BTreeMap Nat (List Text)).insert 0 []) where
  way p ways h := by
    rw [Table.getElem?_insert] at h
    split at h
    · rename_i heq
      rw [← heq, ← some.inj h]
      exact .here 0
    · rw [ExtTreeMap.getElem?_empty] at h
      cases h
  fuel p h := by
    rw [ExtTreeMap.mem_insert, Std.LawfulEqCmp.compare_eq_iff_eq] at h
    rcases h with rfl | h
    · omega
    · exact absurd h ExtTreeMap.not_mem_empty

theorem split_separator (hne : words ≠ []) (hfew : occurrences words text ≤ MOST_JOINS) :
    (∀ pieces, (Joining.separator words).split text isPart = some pieces →
      (Joining.separator words).Splits text isPart pieces) ∧
    ∀ pieces, (Joining.separator words).Splits text isPart pieces →
      ((Joining.separator words).split text isPart).isSome := by
  have hreached := reached_start text isPart words
  have hnext : ∀ p q b, (q, b) ∈ steps text isPart words (spots words text) p →
      p < q ∧ q ≤ text.length := fun p q b h => (of_mem_steps (fun _ => id) h).2.2
  rw [Joining.split, places_eq hne hfew, bind_some]
  constructor
  · intro pieces hfound
    obtain ⟨p, ways, last, hway, hlast, rfl⟩ := search_sound hnext hreached hfound
    obtain ⟨haccepted, htext⟩ := of_way hway
    obtain ⟨hdrop, haccepted'⟩ := piece_end.mp hlast
    refine ⟨forall_mem_append.mpr ⟨haccepted, by simpa using haccepted'⟩, by simp, ?_⟩
    rw [intercalate_concat, ← hdrop, ← htext, drop_zero]
  · rintro pieces ⟨haccepted, hnil, hjoined⟩
    obtain ⟨ways, last, rfl⟩ := (eq_nil_or_concat' pieces).resolve_left hnil
    rw [intercalate_concat] at hjoined
    obtain ⟨q, hway, hrest⟩ := @exists_way text isPart words hne ways
      (fun piece hpiece => haccepted piece (mem_append_left _ hpiece)) 0 (Nat.zero_le _) last
      hjoined.symm
    have hlast := haccepted last (mem_append_right _ (mem_singleton.mpr rfl))
    exact isSome_search hnext hreached (by simp) hway
      (isSome_iff_exists.mpr ⟨last, piece_end.mpr ⟨hrest, hlast⟩⟩)

end Separator

/-! ## A template -/

section Template

variable {text : Text} {isPart : Text → Bool}

/-- Pieces, each with its words after it. -/
def chain : List Text → List Text → Text
  | piece :: pieces, words :: between => piece ++ (words ++ chain pieces between)
  | _, _ => []

theorem of_mem_stepsWithin {words : Text} {«end» p q : Nat} {found : Text}
    (h : (q, found) ∈ steps text isPart words ((spots words text).filter (· ≤ «end»)) p) :
    Accepted isPart found ∧ text.drop p = found ++ (words ++ text.drop q) ∧
      p < q ∧ q ≤ text.length :=
  of_mem_steps (fun _ hplace => (mem_filter.mp hplace).1) h

theorem of_mem_walk {«end» : Nat} {between : List Text} (hne : ∀ words ∈ between, words ≠ [])
    (hfew : ∀ words ∈ between, occurrences words text ≤ MOST_JOINS)
    {reached : List (Nat × List Text)} (hreached : ∀ place ∈ reached, place.1 ≤ text.length) :
    ∃ found, walk text isPart «end» between reached = some found ∧
      ∀ p ways, (p, ways) ∈ found → p ≤ text.length ∧ ∃ place ∈ reached, ∃ pieces,
        ways = place.2 ++ pieces ∧ pieces.length = between.length ∧
        (∀ piece ∈ pieces, Accepted isPart piece) ∧
        text.drop place.1 = chain pieces between ++ text.drop p := by
  induction between generalizing reached with
  | nil => exact ⟨reached, rfl, fun p ways h => ⟨hreached _ h, (p, ways), h, [], by simp [chain]⟩⟩
  | cons words between ih =>
    have hplaces := places_eq (hne words mem_cons_self) (hfew words mem_cons_self)
    obtain ⟨found, hwalk, hfound⟩ := @ih
      (fun other hother => hne other (mem_cons_of_mem _ hother))
      (fun other hother => hfew other (mem_cons_of_mem _ hother))
      (layer (steps text isPart words ((spots words text).filter (· ≤ «end»))) reached)
      (fun place hplace => by
        obtain ⟨from', -, b, hstep, -⟩ := of_mem_layer hplace
        exact (of_mem_stepsWithin hstep).2.2.2)
    refine ⟨found, by rw [walk, hplaces]; exact hwalk, fun p ways h => ?_⟩
    obtain ⟨hle, place, hplace, pieces, rfl, hlength, haccepted, htext⟩ := hfound p ways h
    obtain ⟨from', hfrom, b, hstep, hways⟩ := of_mem_layer hplace
    obtain ⟨haccepted', htext', -⟩ := of_mem_stepsWithin hstep
    refine ⟨hle, from', hfrom, b :: pieces, ?_, by simp [hlength],
      forall_mem_cons.mpr ⟨haccepted', haccepted⟩, ?_⟩
    · rw [hways, append_assoc]
      rfl
    · rw [htext', htext, chain]
      simp only [append_assoc]

theorem exists_mem_walk {«end» : Nat} {between : List Text} (hne : ∀ words ∈ between, words ≠ [])
    {reached found : List (Nat × List Text)}
    (hwalk : walk text isPart «end» between reached = some found)
    (hfew : ∀ words ∈ between, occurrences words text ≤ MOST_JOINS)
    {place : Nat × List Text} (hplace : place ∈ reached) (hle : place.1 ≤ text.length)
    {pieces : List Text} (hlength : pieces.length = between.length)
    (haccepted : ∀ piece ∈ pieces, Accepted isPart piece) {rest : Text}
    (hrest : text.length - «end» ≤ rest.length)
    (htext : text.drop place.1 = chain pieces between ++ rest) :
    ∃ p ways, (p, ways) ∈ found ∧ p ≤ text.length ∧ text.drop p = rest := by
  induction between generalizing reached place pieces with
  | nil =>
    obtain rfl := length_eq_zero_iff.mp hlength
    exact ⟨place.1, place.2, some.inj hwalk ▸ hplace, hle, htext⟩
  | cons words between ih =>
    obtain ⟨piece, pieces, rfl⟩ := exists_cons_of_length_eq_add_one hlength
    rw [chain, append_assoc, append_assoc] at htext
    have hwords := hne words mem_cons_self
    rw [walk, places_eq hwords (hfew words mem_cons_self), bind_some] at hwalk
    have hsum := congrArg List.length htext
    simp only [length_append, length_drop] at hsum
    have hpos := length_pos_iff.mpr hwords
    obtain ⟨hstep, hdrop⟩ := @mem_steps text isPart words
      ((spots words text).filter (· ≤ «end»)) place.1 piece hle _ hwords
      (haccepted piece mem_cons_self) htext fun hspot => mem_filter.mpr ⟨hspot, decide_eq_true (by omega)⟩
    obtain ⟨ways, hways⟩ := exists_mem_layer hplace hstep
    exact ih (fun other hother => hne other (mem_cons_of_mem _ hother)) hwalk
      (fun other hother => hfew other (mem_cons_of_mem _ hother)) hways
      (of_mem_stepsWithin hstep).2.2.2 (Nat.succ.inj hlength)
      (fun other hother => haccepted other (mem_cons_of_mem _ hother)) hdrop

theorem woven_cons {between pieces : List Text} (hlength : pieces.length = between.length)
    (first last piece : Text) :
    woven (first :: (between ++ [last])) (pieces ++ [piece]) =
      first ++ (chain pieces between ++ (piece ++ last)) := by
  induction between generalizing first pieces with
  | nil =>
    obtain rfl := length_eq_zero_iff.mp hlength
    simp [woven, chain]
  | cons words between ih =>
    obtain ⟨other, pieces, rfl⟩ := exists_cons_of_length_eq_add_one hlength
    rw [cons_append, cons_append, woven, ih (Nat.succ.inj hlength), chain]
    simp only [append_assoc]

theorem closed_eq_some {«end» : Nat} {reached : List (Nat × List Text)} {pieces : List Text}
    (h : closed text isPart «end» reached = some pieces) :
    ∃ p ways last, (p, ways) ∈ reached ∧ p ≤ «end» ∧ Accepted isPart last ∧
      (text.drop p).take («end» - p) = last ∧ pieces = ways ++ [last] := by
  obtain ⟨place, hplace, h⟩ := exists_of_findSome?_eq_some h
  split at h
  · rename_i hle
    obtain ⟨last, hlast, rfl⟩ := map_eq_some_iff.mp h
    obtain ⟨htake, haccepted⟩ := piece_eq_some.mp hlast
    exact ⟨place.1, place.2, last, hplace, hle, haccepted, htake, rfl⟩
  · cases h

theorem isSome_closed {«end» : Nat} {reached : List (Nat × List Text)} {p : Nat}
    {ways : List Text} (hmem : (p, ways) ∈ reached) (hle : p ≤ «end») {last : Text}
    (haccepted : Accepted isPart last) (htake : (text.drop p).take («end» - p) = last) :
    (closed text isPart «end» reached).isSome := by
  rw [closed, findSome?_isSome_iff]
  refine ⟨(p, ways), hmem, ?_⟩
  rw [if_pos hle, piece_eq_some.mpr ⟨htake, haccepted⟩]
  rfl

theorem drop_eq_take_append {last : Text} (hends : last <:+ text) {p : Nat}
    (hle : p ≤ text.length - last.length) :
    text.drop p = (text.drop p).take (text.length - last.length - p) ++ last := by
  have hlast : text.drop (text.length - last.length) = last := by
    obtain ⟨front, rfl⟩ := hends
    rw [length_append, Nat.add_sub_cancel, drop_left]
  have hrest : (text.drop p).drop (text.length - last.length - p) = last := by
    rw [drop_drop, Nat.add_sub_cancel' hle, hlast]
  exact (take_append_drop (text.length - last.length - p) (text.drop p)).symm.trans
    (by rw [hrest])

theorem split_template {first last : Text} {between : List Text}
    (hne : ∀ words ∈ between, words ≠ [])
    (hfew : ∀ words ∈ between, occurrences words text ≤ MOST_JOINS) :
    (∀ pieces, (Joining.template (first :: (between ++ [last]))).split text isPart = some pieces →
      (Joining.template (first :: (between ++ [last]))).Splits text isPart pieces) ∧
    ∀ pieces, (Joining.template (first :: (between ++ [last]))).Splits text isPart pieces →
      ((Joining.template (first :: (between ++ [last]))).split text isPart).isSome := by
  have hwalk := fun hstarts : first <+: text => @of_mem_walk text isPart
    (text.length - last.length) between hne hfew [(first.length, [])] fun place hplace => by
      rw [mem_singleton.mp hplace]
      exact hstarts.length_le
  rw [Joining.split, getLast?_concat, bind_some, dropLast_concat]
  constructor
  · intro pieces h
    split at h
    · cases h
    split at h
    · cases h
    rename_i hend hfits
    simp only [Bool.or_eq_true, Bool.not_eq_true', decide_eq_true_eq, not_or, Bool.not_eq_false,
      isPrefixOf_iff_prefix, isSuffixOf_iff_suffix] at hfits
    obtain ⟨⟨hstarts, hends⟩, hroom⟩ := hfits
    obtain ⟨found, hwalk, hfound⟩ := hwalk hstarts
    rw [hwalk, bind_some] at h
    obtain ⟨p, ways, piece, hmem, hle, haccepted, htake, rfl⟩ := closed_eq_some h
    obtain ⟨hp, place, hplace, pieces, rfl, hlength, hpieces, htext⟩ := hfound p ways hmem
    obtain rfl := mem_singleton.mp hplace
    dsimp only at htext
    rw [nil_append]
    refine ⟨forall_mem_append.mpr ⟨hpieces, by simpa using haccepted⟩, by simp [hlength], ?_⟩
    rw [woven_cons hlength, ← htake, ← drop_eq_take_append hends hle, ← htext]
    obtain ⟨rest, rfl⟩ := hstarts
    rw [drop_left]
  · rintro pieces ⟨haccepted, hlength, hjoined⟩
    simp only [length_cons, length_append, length_nil] at hlength
    obtain ⟨ways, piece, rfl⟩ := (eq_nil_or_concat' pieces).resolve_left fun hnil => by
      rw [hnil] at hlength
      simp at hlength
    rw [length_append, length_singleton] at hlength
    have hlength : ways.length = between.length := by omega
    rw [woven_cons hlength] at hjoined
    have hpiece := haccepted piece (mem_append_right _ (mem_singleton.mpr rfl))
    have hstarts : first <+: text := ⟨_, hjoined⟩
    have hends : last <:+ text :=
      ⟨first ++ (chain ways between ++ piece), by rw [← hjoined]; simp only [append_assoc]⟩
    have hsum := congrArg List.length hjoined
    simp only [length_append] at hsum
    have hfits : ¬ (!first.isPrefixOf text || !last.isSuffixOf text ||
        decide (text.length - last.length < first.length)) = true := by
      simp only [Bool.or_eq_true, Bool.not_eq_true', decide_eq_true_eq, not_or, Bool.not_eq_false,
        isPrefixOf_iff_prefix, isSuffixOf_iff_suffix]
      exact ⟨⟨hstarts, hends⟩, by omega⟩
    obtain ⟨found, hwalk, -⟩ := hwalk hstarts
    obtain ⟨p, ways', hmem, hp, hdrop⟩ := exists_mem_walk hne hwalk hfew
      (mem_singleton.mpr rfl) hstarts.length_le hlength
      (fun other hother => haccepted other (mem_append_left _ hother))
      (show text.length - (text.length - last.length) ≤ (piece ++ last).length by
        rw [length_append]; omega)
      (by rw [← hjoined, drop_left])
    have hrest := congrArg List.length hdrop
    rw [length_drop, length_append] at hrest
    have hle : p ≤ text.length - last.length := by omega
    rw [if_neg (by omega), if_neg hfits, hwalk, bind_some]
    refine isSome_closed hmem hle hpiece ?_
    have htake := drop_eq_take_append hends hle
    rw [hdrop] at htake
    rw [hdrop, ← append_cancel_right htake]

end Template

/-! ## Both -/

/-- **Splitting a joined answer** finds pieces that are accepted, not blank, and joined in the pinned
words are the text; and finds some if there are any. -/
theorem split_exact {pin : Value} {joining : Joining} (hpin : Joining.read pin = some joining)
    {text : Text} (hfew : ∀ words ∈ joining.words, occurrences words text ≤ MOST_JOINS)
    (isPart : Text → Bool) :
    (∀ pieces, joining.split text isPart = some pieces → joining.Splits text isPart pieces) ∧
      ∀ pieces, joining.Splits text isPart pieces → (joining.split text isPart).isSome := by
  cases Joining.read_pinned hpin with
  | separator hne => exact split_separator hne (hfew _ List.mem_cons_self)
  | template hne =>
    refine split_template hne fun words hwords => hfew words ?_
    rw [Joining.words, List.tail_cons, List.dropLast_concat]
    exact hwords

/-- The separator is at two places that overlap, and only the later one leaves two parts. -/
theorem split_exact_overlapping :
    ((Joining.separator ['a', 'a']).split ['b', 'a', 'a', 'a', 'b']
      [['b', 'a'], ['b']].contains).isSome := by
  have hpin : Joining.read (.object [("separator", .string "aa")]) =
    some (.separator ['a', 'a']) := by decide +kernel
  have hfew : ∀ words ∈ (Joining.separator ['a', 'a']).words,
      occurrences words ['b', 'a', 'a', 'a', 'b'] ≤ MOST_JOINS := by decide +kernel
  refine (split_exact hpin hfew _).2 [['b', 'a'], ['b']] ⟨?_, by simp, by decide +kernel⟩
  intro piece hpiece
  rcases List.mem_pair.mp hpiece with rfl | rfl <;> exact ⟨by decide +kernel, by decide +kernel⟩

end Aiwatcher.Traced
