import Aiwatcher.Traced.Grounded
import Mathlib.Data.Fintype.Basic
import Mathlib.Data.List.Sort

/-!
# Aiwatcher.Traced.Chosen

The verdict of `chosenAsPinned` does not depend on the order in which a run's calls and tools are
listed.
-/

namespace Aiwatcher.Traced

open Library List Option

/-! ## The first reply -/

def started (final : Seen) : Int := final.call.startedMs.getD 0

variable {finals : List Seen} {first second : Seen} {one other : Nat}

theorem timed_eq :
    timed finals = if finals.all (·.call.startedMs.isSome) then
      some (finals.map fun final => (started final, final)) else none := by
  induction finals with
  | nil => rfl
  | cons final finals ih =>
    rw [timed, ih]
    cases hstarted : final.call.startedMs with
    | none => simp [hstarted]
    | some ms =>
      by_cases hall : finals.all (·.call.startedMs.isSome)
      · simp [hstarted, hall, started]
      · simp [hstarted, hall]

/-- In order, those that tie with the first are the front. -/
theorem mem_takeWhile_iff {sorted : List (Int × Seen)} {first : Int}
    (hsorted : sorted.Pairwise fun one other => one.1 ≤ other.1) (hfirst : ∀ one ∈ sorted, first ≤ one.1)
    {one : Int × Seen} :
    one ∈ sorted.takeWhile (fun one => one.1 == first) ↔ one ∈ sorted ∧ one.1 = first := by
  induction sorted with
  | nil => simp
  | cons head rest ih =>
    obtain ⟨hhead, hrest⟩ := pairwise_cons.1 hsorted
    rw [takeWhile_cons]
    split
    · rename_i heq
      rw [mem_cons, ih hrest fun one hone => hfirst one (mem_cons_of_mem _ hone)]
      have heq : head.1 = first := by simpa using heq
      grind
    · rename_i hne
      have hlt : first < head.1 := by
        have hle := hfirst head mem_cons_self
        have hne : head.1 ≠ first := by simpa using hne
        omega
      simp only [not_mem_nil, mem_cons, false_iff, not_and]
      rintro (rfl | hone) heq
      · omega
      · have hle := hhead one hone
        omega

theorem pairwise_earlier (timed : List (Int × Seen)) :
    (timed.mergeSort earlier).Pairwise fun one other => one.1 ≤ other.1 := by
  have hsorted : (timed.mergeSort earlier).Pairwise fun one other => earlier one other = true :=
    pairwise_mergeSort (fun one two three h h' => by simp [earlier] at *; omega)
      (fun one two => by simp [earlier]; omega) timed
  exact hsorted.imp fun h => by simpa [earlier] using h

theorem ofPick_firstPicked (hsome : finals ≠ []) :
    ofPick (firstPicked finals) = .picked ↔
      finals.all (·.call.startedMs.isSome) = true ∧ ∀ final ∈ finals,
        (∀ other ∈ finals, started final ≤ started other) → final.answering = true := by
  rw [firstPicked, timed_eq]
  by_cases hall : finals.all (·.call.startedMs.isSome)
  · rw [if_pos hall]
    dsimp only [bind_eq_bind, bind_some]
    have hsorted := pairwise_earlier (finals.map fun final => (started final, final))
    have hmem : ∀ one, one ∈ (finals.map fun final => (started final, final)).mergeSort earlier ↔
        ∃ final ∈ finals, (started final, final) = one := by
      intro one
      rw [mem_mergeSort, List.mem_map]
    cases hlist : (finals.map fun final => (started final, final)).mergeSort earlier with
    | nil =>
      have hlength : ((finals.map fun final => (started final, final)).mergeSort earlier).length =
          (finals.map fun final => (started final, final)).length := length_mergeSort _
      rw [hlist, length_map] at hlength
      exact absurd (length_eq_zero_iff.1 hlength.symm) hsome
    | cons first rest =>
      rw [hlist] at hsorted hmem
      have hfirst : ∀ one ∈ first :: rest, first.1 ≤ one.1 := by
        intro one hone
        rcases mem_cons.1 hone with rfl | hone
        · exact Int.le_refl _
        · exact (pairwise_cons.1 hsorted).1 one hone
      have hpicked : ((first :: rest).takeWhile fun one => one.1 == first.1).all
          (·.2.answering) = true ↔ ∀ final ∈ finals,
            (∀ other ∈ finals, started final ≤ started other) → final.answering = true := by
        rw [List.all_eq_true]
        simp only [mem_takeWhile_iff hsorted hfirst]
        obtain ⟨least, hleast, heq⟩ := (hmem first).1 mem_cons_self
        constructor
        · intro h final hfinal hbefore
          refine h (started final, final) ⟨(hmem _).2 ⟨final, hfinal, rfl⟩, ?_⟩
          have hle := hbefore least hleast
          have hge := hfirst _ ((hmem _).2 ⟨final, hfinal, rfl⟩)
          rw [← heq] at hge ⊢
          exact Int.le_antisymm hle hge
        · rintro h one ⟨hone, hsame⟩
          obtain ⟨final, hfinal, rfl⟩ := (hmem one).1 hone
          refine h final hfinal fun other hother => ?_
          have hge := hfirst _ ((hmem _).2 ⟨other, hother, rfl⟩)
          dsimp only at hsame hge
          omega
      rw [← hpicked]
      simp only [head?_cons, bind_some, hall, true_and]
      cases ((first :: rest).takeWhile fun one => one.1 == first.1).all (·.2.answering) <;>
        simp [ofPick]
  · simp [hall, ofPick]

/-! ## The reply given most often -/

/-- Replies joined through those they share. -/
def Same (finals : List Seen) : Seen → Seen → Prop :=
  Relation.EqvGen fun one other => one ∈ finals ∧ other ∈ finals ∧ sharing one other = true

theorem sharing_iff {one other : Seen} :
    sharing one other = true ↔ ∃ reply ∈ one.replies, reply ∈ other.replies := by
  simp [sharing]

theorem sharing_symm {one other : Seen} (h : sharing one other = true) :
    sharing other one = true := by
  obtain ⟨reply, hone, hother⟩ := sharing_iff.1 h
  exact sharing_iff.2 ⟨reply, hother, hone⟩

theorem mem_sharingPairs :
    (one, other) ∈ sharingPairs finals ↔ one < other ∧ ∃ first second,
      finals[one]? = some first ∧ finals[other]? = some second ∧ sharing first second = true := by
  rw [sharingPairs]
  simp only [mem_flatMap, List.mem_map, mem_filter, mem_range, Prod.mk.injEq,
    Bool.and_eq_true, decide_eq_true_eq]
  constructor
  · rintro ⟨place, hplace, place', ⟨hplace', hlt, hshare⟩, rfl, rfl⟩
    refine ⟨hlt, finals[place], finals[place'], getElem?_eq_getElem hplace,
      getElem?_eq_getElem hplace', ?_⟩
    simpa only [getElem?_eq_getElem hplace, getElem?_eq_getElem hplace'] using hshare
  · rintro ⟨hlt, first, second, hfirst, hsecond, hshare⟩
    refine ⟨one, (List.getElem?_eq_some_iff.1 hfirst).1, other,
      ⟨(List.getElem?_eq_some_iff.1 hsecond).1, hlt, ?_⟩, rfl, rfl⟩
    simpa only [hfirst, hsecond] using hshare

theorem same_of_connected
    (h : Relation.EqvGen (fun one other => (one, other) ∈ sharingPairs finals) one other) :
    one = other ∨ ∃ first second, finals[one]? = some first ∧ finals[other]? = some second ∧
      Same finals first second := by
  induction h with
  | rel one other hpair =>
    obtain ⟨-, first, second, hfirst, hsecond, hshare⟩ := mem_sharingPairs.1 hpair
    exact .inr ⟨first, second, hfirst, hsecond,
      .rel _ _ ⟨List.mem_of_getElem? hfirst, List.mem_of_getElem? hsecond, hshare⟩⟩
  | refl one => exact .inl rfl
  | symm one other _ ih =>
    rcases ih with rfl | ⟨first, second, hfirst, hsecond, hsame⟩
    · exact .inl rfl
    · exact .inr ⟨second, first, hsecond, hfirst, hsame.symm _ _⟩
  | trans one two three _ _ ih ih' =>
    rcases ih with rfl | ⟨first, second, hfirst, hsecond, hsame⟩
    · exact ih'
    · rcases ih' with rfl | ⟨second', third, hsecond', hthird, hsame'⟩
      · exact .inr ⟨first, second, hfirst, hsecond, hsame⟩
      · rw [hsecond] at hsecond'
        obtain rfl := some.inj hsecond'
        exact .inr ⟨first, third, hfirst, hthird, hsame.trans _ _ _ hsame'⟩

theorem connected_of_sharing (hfirst : finals[one]? = some first)
    (hsecond : finals[other]? = some second) (hshare : sharing first second = true) :
    Relation.EqvGen (fun one other => (one, other) ∈ sharingPairs finals) one other := by
  rcases Nat.lt_trichotomy one other with hlt | rfl | hlt
  · exact .rel _ _ (mem_sharingPairs.2 ⟨hlt, first, second, hfirst, hsecond, hshare⟩)
  · exact .refl one
  · exact .symm _ _ (.rel _ _ (mem_sharingPairs.2
      ⟨hlt, second, first, hsecond, hfirst, sharing_symm hshare⟩))

theorem mem_of_same (h : Same finals first second) :
    first = second ∨ first ∈ finals ∧ second ∈ finals := by
  induction h with
  | rel one other h => exact .inr ⟨h.1, h.2.1⟩
  | refl one => exact .inl rfl
  | symm one other _ ih => grind
  | trans one two three _ _ ih ih' => grind

theorem connected_of_same (hfull : ∀ final ∈ finals, final.replies ≠ [])
    (h : Same finals first second) :
    ∀ {one other : Nat}, finals[one]? = some first → finals[other]? = some second →
      Relation.EqvGen (fun one other => (one, other) ∈ sharingPairs finals) one other := by
  induction h with
  | rel first second h => exact fun hfirst hsecond => connected_of_sharing hfirst hsecond h.2.2
  | refl first =>
    intro one other hfirst hsecond
    obtain ⟨reply, hreply⟩ :=
      exists_mem_of_ne_nil _ (hfull first (List.mem_of_getElem? hfirst))
    exact connected_of_sharing hfirst hsecond (sharing_iff.2 ⟨reply, hreply, hreply⟩)
  | symm first second _ ih => exact fun hfirst hsecond => (ih hsecond hfirst).symm _ _
  | trans first second third hsame _ ih ih' =>
    intro one other hfirst hthird
    rcases mem_of_same hsame with rfl | ⟨-, hsecond⟩
    · exact ih' hfirst hthird
    · obtain ⟨place, hplace⟩ := mem_iff_getElem?.1 hsecond
      exact (ih hfirst hplace).trans _ _ _ (ih' hplace hthird)

/-- **The groups** the code joins are the joined replies. -/
theorem exists_label (hfull : ∀ final ∈ finals, final.replies ≠ []) :
    ∃ label : Nat → Nat,
      roots (sharingPairs finals).length (joinAll (sharingPairs finals))
        (List.range finals.length) = (List.range finals.length).map label ∧
      ∀ {one other : Nat} {first second : Seen}, finals[one]? = some first →
        finals[other]? = some second → (label one = label other ↔ Same finals first second) := by
  obtain ⟨label, hlabel, htells⟩ := labelled_joinAll (sharingPairs finals)
  refine ⟨label, roots_eq hlabel (Nat.le_refl _) _, fun hfirst hsecond => ?_⟩
  rw [htells]
  constructor
  · intro h
    rcases same_of_connected h with rfl | ⟨first', second', hfirst', hsecond', hsame⟩
    · rw [hfirst] at hsecond
      obtain rfl := some.inj hsecond
      exact .refl _
    · rw [hfirst] at hfirst'
      rw [hsecond] at hsecond'
      obtain rfl := some.inj hfirst'
      obtain rfl := some.inj hsecond'
      exact hsame
  · exact fun hsame => connected_of_same hfull hsame hfirst hsecond

open Classical in
/-- How many replies are joined with this one. -/
noncomputable def groupSize (finals : List Seen) (one : Seen) : Nat :=
  finals.countP fun other => Decidable.decide (Same finals one other)

theorem countP_range (p : Seen → Bool) :
    (List.range finals.length).countP (fun place => (finals[place]?).any p) = finals.countP p := by
  have hmap : (List.range finals.length).map (finals[·]?) = finals.map some := by
    refine ext_getElem? fun place => ?_
    rw [getElem?_map, getElem?_map]
    by_cases hplace : place < finals.length
    · rw [getElem?_range hplace, getElem?_eq_getElem hplace]
      simp [getElem?_eq_getElem hplace]
    · simp [Nat.le_of_not_lt hplace]
  have hcount : ((List.range finals.length).map (finals[·]?)).countP (·.any p) =
      (finals.map some).countP (·.any p) := by rw [hmap]
  rw [countP_map, countP_map] at hcount
  exact hcount

theorem count_tops {label : Nat → Nat}
    (hlabel : ∀ {one other : Nat} {first second : Seen}, finals[one]? = some first →
      finals[other]? = some second → (label one = label other ↔ Same finals first second))
    {place : Nat} {one : Seen} (hone : finals[place]? = some one) :
    ((List.range finals.length).map label).count (label place) = groupSize finals one := by
  rw [groupSize, ← countP_range, List.count, countP_map]
  refine countP_congr fun other hother => ?_
  have hlt := mem_range.1 hother
  have hsecond := getElem?_eq_getElem hlt
  rw [hsecond]
  simp only [Function.comp_apply, beq_iff_eq, any_some, decide_eq_true_eq]
  rw [eq_comm, hlabel hone hsecond]

theorem dedup_eq_singleton {tops : List Nat} {answer : Nat} :
    tops.dedup = [answer] ↔ ∀ top, top ∈ tops ↔ top = answer := by
  constructor
  · intro h top
    rw [← mem_dedup, h, mem_singleton]
  · intro h
    refine perm_singleton.1 ((perm_ext_iff_of_nodup (nodup_dedup _)
      (nodup_singleton _)).2 fun top => ?_)
    rw [mem_dedup, h, mem_singleton]

theorem ofPick_mostPicked (hfull : ∀ final ∈ finals, final.replies ≠ []) (n : Nat) :
    ofPick (mostPicked n finals) = .picked ↔ finals.length = n ∧ ∃ one ∈ finals,
      one.answering = true ∧ (∀ other ∈ finals, other.answering = true → Same finals one other) ∧
        ∀ other ∈ finals, Same finals one other ∨
          groupSize finals other < groupSize finals one := by
  obtain ⟨label, htops, hlabel⟩ := exists_label hfull
  rw [mostPicked]
  by_cases hn : finals.length = n
  · rw [if_neg (by simpa using hn)]
    dsimp only
    rw [htops]
    have hanswers : ∀ top, top ∈ ((((List.range finals.length).map label).zip finals).filter
        (·.2.answering)).map (·.1) ↔ ∃ place one, finals[place]? = some one ∧
          one.answering = true ∧ label place = top := by
      intro top
      simp only [List.mem_map, mem_filter]
      constructor
      · rintro ⟨⟨top, one⟩, ⟨hmem, hanswering⟩, rfl⟩
        obtain ⟨place, hplace⟩ := mem_iff_getElem?.1 hmem
        obtain ⟨htop, hone⟩ := getElem?_zip_eq_some.1 hplace
        have hlt := (List.getElem?_eq_some_iff.1 hone).1
        rw [getElem?_map, getElem?_range hlt] at htop
        exact ⟨place, one, hone, hanswering, some.inj htop⟩
      · rintro ⟨place, one, hone, hanswering, rfl⟩
        have hlt := (List.getElem?_eq_some_iff.1 hone).1
        refine ⟨(label place, one), ⟨mem_iff_getElem?.2 ⟨place,
          getElem?_zip_eq_some.2 ⟨?_, hone⟩⟩, hanswering⟩, rfl⟩
        rw [getElem?_map, getElem?_range hlt]
        rfl
    split
    · rename_i answer hanswer
      rw [dedup_eq_singleton] at hanswer
      simp only [hanswers] at hanswer
      obtain ⟨place, one, hone, hanswering, htop⟩ := (hanswer answer).2 rfl
      subst htop
      have hjoined : ∀ other ∈ finals, other.answering = true → Same finals one other := by
        intro other hother hanswering'
        obtain ⟨place', hplace'⟩ := mem_iff_getElem?.1 hother
        exact (hlabel hone hplace').1
          ((hanswer _).1 ⟨place', other, hplace', hanswering', rfl⟩).symm
      have hmost : ((List.range finals.length).map label).all (fun top => top == label place ||
          decide (((List.range finals.length).map label).count top <
            ((List.range finals.length).map label).count (label place))) = true ↔
          ∀ other ∈ finals, Same finals one other ∨
            groupSize finals other < groupSize finals one := by
        rw [List.all_eq_true]
        simp only [Bool.or_eq_true, beq_iff_eq, decide_eq_true_eq]
        constructor
        · intro h other hother
          obtain ⟨place', hplace'⟩ := mem_iff_getElem?.1 hother
          have hlt := (List.getElem?_eq_some_iff.1 hplace').1
          have hor := h (label place') (mem_map_of_mem (mem_range.2 hlt))
          rw [count_tops hlabel hplace', count_tops hlabel hone] at hor
          rcases hor with hsame | hless
          · exact .inl ((hlabel hone hplace').1 hsame.symm)
          · exact .inr hless
        · intro h top htop
          obtain ⟨place', hrange, rfl⟩ := mem_map.1 htop
          have hplace' := getElem?_eq_getElem (mem_range.1 hrange)
          rw [count_tops hlabel hplace', count_tops hlabel hone]
          rcases h _ (List.mem_of_getElem? hplace') with hsame | hless
          · exact .inl ((hlabel hone hplace').2 hsame).symm
          · exact .inr hless
      constructor
      · intro hpicked
        refine ⟨hn, one, List.mem_of_getElem? hone, hanswering, hjoined, hmost.1 ?_⟩
        cases hall : ((List.range finals.length).map label).all _ with
        | true => rfl
        | false =>
          rw [hall] at hpicked
          cases hpicked
      · rintro ⟨-, one', hone', hanswering', hjoined', hmost'⟩
        have hsame : Same finals one one' := hjoined one' hone' hanswering'
        have hsize : groupSize finals one' = groupSize finals one := by
          refine countP_congr fun other _ => ?_
          simp only [decide_eq_true_eq]
          exact ⟨fun h => hsame.trans _ _ _ h, fun h => (hsame.symm _ _).trans _ _ _ h⟩
        rw [hmost.2 fun other hother => ?_]
        · rfl
        · rcases hmost' other hother with hjoins | hless
          · exact .inl (hsame.trans _ _ _ hjoins)
          · exact .inr (hsize ▸ hless)
    · rename_i hmany
      constructor
      · intro h
        cases h
      · rintro ⟨-, one, hone, hanswering, hjoined, -⟩
        obtain ⟨place, hplace⟩ := mem_iff_getElem?.1 hone
        refine absurd (dedup_eq_singleton.2 fun top => ?_) (hmany (label place))
        rw [hanswers]
        constructor
        · rintro ⟨place', other, hplace', hanswering', rfl⟩
          exact ((hlabel hplace hplace').2
            (hjoined other (List.mem_of_getElem? hplace') hanswering')).symm
        · rintro rfl
          exact ⟨place, one, hplace, hanswering, rfl⟩
  · simp [hn, ofPick]

end Aiwatcher.Traced
