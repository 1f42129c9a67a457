import Aiwatcher.Library.Table

/-!
# Aiwatcher.Library.Ways

Ways through numbered places, each step of which passes something, looked for place by place with
one way kept to each.

* `Way` — a way from one place to another, by what it passes;
* `spread` — every step from one place, kept where no other way leads;
* `search` — the loop that takes the first place reached until one of them ends the way;
* `layer` — all the steps from some places at once, for ways of a fixed number of steps;
* `search_sound`, `isSome_search`, `of_mem_layer`, `exists_mem_layer` — keeping one way to each place
  loses none.
-/

namespace Aiwatcher.Library

open List Std

section Ways

variable {β : Type} (next : Nat → List (Nat × β))

/-- A way from a place to another, by what it passes. -/
inductive Way : Nat → List β → Nat → Prop where
  | here (p : Nat) : Way p [] p
  | step {p q r : Nat} {b : β} {bs : List β} (h : (q, b) ∈ next p) (rest : Way q bs r) :
      Way p (b :: bs) r

variable {next}

theorem Way.trans {p q r : Nat} {bs cs : List β} (h : Way next p bs q) (h' : Way next q cs r) :
    Way next p (bs ++ cs) r := by
  induction h with
  | here p => exact h'
  | step hstep rest ih => exact .step hstep (ih h')

theorem Way.concat {p q r : Nat} {bs : List β} {b : β} (h : Way next p bs q)
    (hstep : (r, b) ∈ next q) : Way next p (bs ++ [b]) r := h.trans (.step hstep (.here r))

/-! ## The steps from one place -/

/-- One step, kept if no other way leads there. -/
def reach (before : List β) (reached : Std.ExtTreeMap Nat (List β) compare) (step : Nat × β) :
    Std.ExtTreeMap Nat (List β) compare :=
  if reached.contains step.1 then reached else reached.insert step.1 (before ++ [step.2])

def spread (before : List β) (reached : Std.ExtTreeMap Nat (List β) compare)
    (steps : List (Nat × β)) : Std.ExtTreeMap Nat (List β) compare :=
  steps.foldl (reach before) reached

variable {before : List β} {fuel : Nat} {p : Nat} {reached : Std.ExtTreeMap Nat (List β) compare}
  {ways : List β}

theorem getElem?_reach {step : Nat × β} (h : (reach before reached step)[p]? = some ways) :
    reached[p]? = some ways ∨ p = step.1 ∧ ways = before ++ [step.2] := by
  rw [reach] at h
  split at h
  · exact .inl h
  · rw [Table.getElem?_insert] at h
    split at h
    · rename_i heq
      exact .inr ⟨heq.symm, (Option.some.inj h).symm⟩
    · exact .inl h

theorem mem_reach {step : Nat × β} : p ∈ reach before reached step ↔ p ∈ reached ∨ p = step.1 := by
  rw [reach]
  split
  · rename_i hheld
    exact ⟨.inl, fun h => h.elim id fun heq => heq ▸ ExtTreeMap.mem_iff_contains.mpr hheld⟩
  · rw [ExtTreeMap.mem_insert, Std.LawfulEqCmp.compare_eq_iff_eq, or_comm, eq_comm]

theorem getElem?_spread {steps : List (Nat × β)}
    (h : (spread before reached steps)[p]? = some ways) :
    reached[p]? = some ways ∨ ∃ b, (p, b) ∈ steps ∧ ways = before ++ [b] := by
  induction steps generalizing reached with
  | nil => exact .inl h
  | cons step steps ih =>
    rcases ih h with h | ⟨b, hmem, hways⟩
    · rcases getElem?_reach h with h | ⟨hp, hways⟩
      · exact .inl h
      · exact .inr ⟨step.2, hp ▸ mem_cons_self, hways⟩
    · exact .inr ⟨b, mem_cons_of_mem _ hmem, hways⟩

theorem mem_spread {steps : List (Nat × β)} :
    p ∈ spread before reached steps ↔ p ∈ reached ∨ ∃ b, (p, b) ∈ steps := by
  induction steps generalizing reached with
  | nil => simp [spread]
  | cons step steps ih =>
    rw [spread, foldl_cons, ← spread, ih, mem_reach, or_assoc]
    refine or_congr_right ⟨?_, ?_⟩
    · rintro (rfl | ⟨b, hmem⟩)
      · exact ⟨step.2, mem_cons_self⟩
      · exact ⟨b, mem_cons_of_mem _ hmem⟩
    · rintro ⟨b, hmem⟩
      rcases mem_cons.mp hmem with heq | hmem
      · exact .inl (congrArg Prod.fst heq)
      · exact .inr ⟨b, hmem⟩

/-! ## From place to place -/

variable (next) in
/-- Take the first place that is reached, until the way ends at one. -/
def search (finish : Nat → Option β) :
    Nat → Std.ExtTreeMap Nat (List β) compare → Option (List β)
  | 0, _ => none
  | fuel + 1, reached =>
    match reached.minKey? with
    | none => none
    | some place =>
      let before := (reached[place]?).getD []
      match finish place with
      | some last => some (before ++ [last])
      | none => search finish fuel (spread before (reached.erase place) (next place))

/-- The places reached are reached by a way from the start, and there is fuel for those left. -/
structure Reached (next : Nat → List (Nat × β)) (start bound fuel : Nat)
    (reached : Std.ExtTreeMap Nat (List β) compare) : Prop where
  way : ∀ p ways, reached[p]? = some ways → Way next start ways p
  fuel : ∀ p ∈ reached, p ≤ bound ∧ bound < p + fuel

variable {finish : Nat → Option β} {start bound : Nat}

theorem Reached.pop (hnext : ∀ p q b, (q, b) ∈ next p → p < q ∧ q ≤ bound)
    (h : Reached next start bound (fuel + 1) reached) {place : Nat}
    (hplace : reached.minKey? = some place) :
    Way next start ((reached[place]?).getD []) place ∧
      Reached next start bound fuel (spread ((reached[place]?).getD []) (reached.erase place)
        (next place)) := by
  obtain ⟨hmem, hmin⟩ := ExtTreeMap.minKey?_eq_some_iff_mem_and_forall.mp hplace
  obtain ⟨ways, hways⟩ : ∃ ways, reached[place]? = some ways :=
    Option.isSome_iff_exists.mp (ExtTreeMap.mem_iff_isSome_getElem?.mp hmem)
  have hway := h.way place ways hways
  rw [hways, Option.getD_some]
  refine ⟨hway, fun p ways' hp => ?_, fun p hp => ?_⟩
  · rcases getElem?_spread hp with hp | ⟨b, hstep, rfl⟩
    · exact h.way p ways' (Table.of_erase hp).2
    · exact hway.concat hstep
  · rcases mem_spread.mp hp with hp | ⟨b, hstep⟩
    · rw [ExtTreeMap.mem_erase] at hp
      have hle := hmin p hp.2
      have hne : place ≠ p := fun heq => hp.1 (Std.LawfulEqCmp.compare_eq_iff_eq.mpr heq)
      have hle : place ≤ p := Nat.isLE_compare.mp hle
      have hfuel := h.fuel p hp.2
      have hfuel' := h.fuel place hmem
      omega
    · have hstep := hnext place p b hstep
      have hfuel := h.fuel place hmem
      omega

/-- **What a search finds** is a way that ends. -/
theorem search_sound (hnext : ∀ p q b, (q, b) ∈ next p → p < q ∧ q ≤ bound)
    (h : Reached next start bound fuel reached) {found : List β}
    (hfound : search next finish fuel reached = some found) :
    ∃ p ways last, Way next start ways p ∧ finish p = some last ∧ found = ways ++ [last] := by
  induction fuel generalizing reached with
  | zero => cases hfound
  | succ fuel ih =>
    rw [search] at hfound
    split at hfound
    · cases hfound
    · rename_i place hplace
      obtain ⟨hway, hreached⟩ := h.pop hnext hplace
      dsimp only at hfound
      split at hfound
      · rename_i last hlast
        exact ⟨place, _, last, hway, hlast, (Option.some.inj hfound).symm⟩
      · exact ih hreached hfound

/-- **A way that ends**, from a place that is reached, is not missed. -/
theorem isSome_search (hnext : ∀ p q b, (q, b) ∈ next p → p < q ∧ q ≤ bound)
    (h : Reached next start bound fuel reached) {p q : Nat} (hp : p ∈ reached)
    (hway : Way next p ways q) (hfinish : (finish q).isSome) :
    (search next finish fuel reached).isSome := by
  induction fuel generalizing reached p ways with
  | zero =>
    have hfuel := h.fuel p hp
    omega
  | succ fuel ih =>
    rw [search]
    split
    · rename_i hnone
      rw [ExtTreeMap.minKey?_eq_none_iff] at hnone
      rw [hnone] at hp
      exact absurd hp ExtTreeMap.not_mem_empty
    · rename_i place hplace
      obtain ⟨-, hreached⟩ := h.pop hnext hplace
      dsimp only
      split
      · rfl
      · rename_i hnone
        by_cases heq : place = p
        · -- the way goes on from here, since it does not end here
          subst heq
          cases hway with
          | here =>
            rw [hnone] at hfinish
            cases hfinish
          | step hstep rest => exact ih hreached (mem_spread.mpr (.inr ⟨_, hstep⟩)) rest
        · refine ih hreached (mem_spread.mpr (.inl ?_)) hway
          rw [ExtTreeMap.mem_erase]
          exact ⟨fun h => heq (Std.LawfulEqCmp.compare_eq_iff_eq.mp h), hp⟩

/-! ## All places at once -/

variable (next) in
/-- The places one step on from some, with one way to each. -/
def layer (reached : List (Nat × List β)) : List (Nat × List β) :=
  (reached.foldl (fun found place => spread place.2 found (next place.1)) ∅).toList

theorem getElem?_foldl_spread {reached : List (Nat × List β)}
    {found : Std.ExtTreeMap Nat (List β) compare}
    (h : (reached.foldl (fun found place => spread place.2 found (next place.1)) found)[p]? =
      some ways) :
    found[p]? = some ways ∨
      ∃ place ∈ reached, ∃ b, (p, b) ∈ next place.1 ∧ ways = place.2 ++ [b] := by
  induction reached generalizing found with
  | nil => exact .inl h
  | cons place reached ih =>
    rcases ih h with h | ⟨other, hmem, hstep⟩
    · rcases getElem?_spread h with h | ⟨b, hstep, hways⟩
      · exact .inl h
      · exact .inr ⟨place, mem_cons_self, b, hstep, hways⟩
    · exact .inr ⟨other, mem_cons_of_mem _ hmem, hstep⟩

theorem mem_foldl_spread {reached : List (Nat × List β)}
    {found : Std.ExtTreeMap Nat (List β) compare} :
    p ∈ reached.foldl (fun found place => spread place.2 found (next place.1)) found ↔
      p ∈ found ∨ ∃ place ∈ reached, ∃ b, (p, b) ∈ next place.1 := by
  induction reached generalizing found with
  | nil => simp
  | cons place reached ih =>
    rw [foldl_cons, ih, mem_spread, or_assoc]
    simp only [mem_cons, exists_eq_or_imp]

theorem of_mem_layer {reached : List (Nat × List β)} (h : (p, ways) ∈ layer next reached) :
    ∃ place ∈ reached, ∃ b, (p, b) ∈ next place.1 ∧ ways = place.2 ++ [b] := by
  rw [layer, ExtTreeMap.mem_toList_iff_getElem?_eq_some] at h
  refine (getElem?_foldl_spread h).resolve_left fun hempty => ?_
  rw [ExtTreeMap.getElem?_empty] at hempty
  cases hempty

theorem exists_mem_layer {reached : List (Nat × List β)} {place : Nat × List β}
    (hmem : place ∈ reached) {b : β} (hstep : (p, b) ∈ next place.1) :
    ∃ ways, (p, ways) ∈ layer next reached := by
  have hheld : p ∈ reached.foldl (fun found place => spread place.2 found (next place.1)) ∅ :=
    mem_foldl_spread.mpr (.inr ⟨place, hmem, b, hstep⟩)
  obtain ⟨ways, hways⟩ := Option.isSome_iff_exists.mp
    (ExtTreeMap.mem_iff_isSome_getElem?.mp hheld)
  exact ⟨ways, ExtTreeMap.mem_toList_iff_getElem?_eq_some.mpr hways⟩

end Ways

end Aiwatcher.Library
