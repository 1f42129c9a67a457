import Aiwatcher.Traced.Chosen

/-!
# Aiwatcher.Traced.Relisted

Neither the marks of `groundedCalls` nor the verdict of `chosenAsPinned` depends on the order in
which a run's calls and tools are listed (`witnessed_exact`).
-/

namespace Aiwatcher.Traced

open Library List

/-! ## The choice, over the same replies -/

theorem same_congr {finals finals' : List Seen} (h : finals'.Perm finals) :
    Same finals' = Same finals := by
  rw [Same, Same]
  congr
  funext one other
  rw [h.mem_iff, h.mem_iff]

theorem groupSize_congr {finals finals' : List Seen} (h : finals'.Perm finals) (one : Seen) :
    groupSize finals' one = groupSize finals one := by
  rw [groupSize, groupSize, same_congr h]
  exact h.countP_eq _

theorem ofPick_congr {one other : Option Bool}
    (h : ofPick one = .picked ↔ ofPick other = .picked) : ofPick one = ofPick other := by
  have htwo : ∀ pick, ofPick pick = .picked ∨ ofPick pick = .chosen none := by
    intro pick
    rcases pick with _ | _ | _ <;> simp [ofPick]
  rcases htwo one with hone | hone <;> rcases htwo other with hother | hother <;> simp_all

theorem firstPicked_congr {finals finals' : List Seen} (h : finals'.Perm finals)
    (hsome : finals ≠ []) : ofPick (firstPicked finals') = ofPick (firstPicked finals) := by
  have hsome' : finals' ≠ [] := fun hnil => hsome (perm_nil.1 (hnil ▸ h.symm))
  refine ofPick_congr ?_
  rw [ofPick_firstPicked hsome, ofPick_firstPicked hsome', h.all_eq]
  simp only [h.mem_iff]

theorem mostPicked_congr {finals finals' : List Seen} (h : finals'.Perm finals)
    (hfull : ∀ final ∈ finals, final.replies ≠ []) (n : Nat) :
    ofPick (mostPicked n finals') = ofPick (mostPicked n finals) := by
  refine ofPick_congr ?_
  rw [ofPick_mostPicked hfull,
    ofPick_mostPicked fun final hfinal => hfull final (h.mem_iff.1 hfinal)]
  simp only [h.mem_iff, h.length_eq, same_congr h, groupSize_congr h]

section

variable {spelling : Spelling} {run run' : TracedRun} {witnesses : Witnesses}
  {judgedPin : JudgedPin}

section

variable (h : run'.publishedBy = run.publishedBy)

include h

theorem witnessKey_congr : witnessKey run' witnesses = witnessKey run witnesses := by
  funext publishedBy
  rw [witnessKey, witnessKey, h]

theorem pickedBy_congr (call : TracedCall) :
    pickedBy spelling run' witnesses judgedPin call =
      pickedBy spelling run witnesses judgedPin call := by
  rw [pickedBy, pickedBy, witnessKey_congr h]

theorem shown_congr {candidates candidates' : List String}
    (hcandidates : ∀ value, value ∈ candidates' ↔ value ∈ candidates) (call : TracedCall) :
    shown spelling run' witnesses judgedPin candidates' call =
      shown spelling run witnesses judgedPin candidates call := by
  have hsame : ∀ value, candidates'.contains value = candidates.contains value := by
    intro value
    rw [Bool.eq_iff_iff, contains_iff_mem, contains_iff_mem, hcandidates]
  rw [shown, shown, witnessKey_congr h]
  simp only [hsame]

theorem judgedBy_congr {seen seen' : List Seen} (hseen : seen'.Perm seen) (judges : List Seen) :
    judgedBy spelling run' witnesses judgedPin seen' judges =
      judgedBy spelling run witnesses judgedPin seen judges := by
  have hcandidates : ∀ value,
      value ∈ (seen'.filter fun other => !judges.contains other).flatMap (·.replies) ↔
        value ∈ (seen.filter fun other => !judges.contains other).flatMap (·.replies) :=
    fun value => ((hseen.filter _).flatMap_right _).mem_iff
  rw [judgedBy, judgedBy]
  simp only [pickedBy_congr h, shown_congr h hcandidates, (hseen.filter _).all_eq]

end

theorem shown_error {candidates : List String} {one other : TracedCall} {why why' : String}
    (hone : (witnessKey run witnesses one.publishedBy).isSome)
    (hother : (witnessKey run witnesses other.publishedBy).isSome)
    (h : shown spelling run witnesses judgedPin candidates one = .error why)
    (h' : shown spelling run witnesses judgedPin candidates other = .error why') : why = why' := by
  obtain ⟨key, hkey⟩ := Option.isSome_iff_exists.1 hone
  obtain ⟨key', hkey'⟩ := Option.isSome_iff_exists.1 hother
  rw [shown, hkey] at h
  rw [shown, hkey'] at h'
  cases hplaces : witnesses.judgePlaces with
  | none =>
    rw [hplaces] at h h'
    cases h
    cases h'
    rfl
  | some places =>
    rw [hplaces] at h h'
    dsimp only at h h'
    split at h
    · split at h'
      · cases h
        cases h'
        rfl
      · cases h'
    · cases h

theorem witnessed_of_pickedBy {call : TracedCall} {picked : String}
    (h : pickedBy spelling run witnesses judgedPin call = some picked) :
    (witnessKey run witnesses call.publishedBy).isSome := by
  rw [pickedBy] at h
  cases hkey : witnessKey run witnesses call.publishedBy with
  | none =>
    rw [hkey] at h
    cases h
  | some key => rfl

/-- Asked both ways, it does not matter which of the two calls is listed first. -/
theorem judgedBy_swap (seen : List Seen) (one other : Seen)
    (horder : judgedPin.order = some .bothWays) :
    judgedBy spelling run witnesses judgedPin seen [one, other] =
      judgedBy spelling run witnesses judgedPin seen [other, one] := by
  have hjudges : ∀ judge : Seen, [one, other].contains judge = [other, one].contains judge := by
    intro judge
    simp [Bool.or_comm]
  rw [judgedBy, judgedBy]
  simp only [mapM_cons, mapM_nil]
  cases hone : pickedBy spelling run witnesses judgedPin one.call with
  | none => cases pickedBy spelling run witnesses judgedPin other.call <;> rfl
  | some pick =>
    cases hother : pickedBy spelling run witnesses judgedPin other.call with
    | none => rfl
    | some pick' =>
      have hkey := witnessed_of_pickedBy hone
      have hkey' := witnessed_of_pickedBy hother
      by_cases hsame : pick = pick'
      · subst hsame
        simp only [hjudges, horder]
        generalize (seen.filter fun judge => !([other, one].contains judge)).flatMap
          (·.replies) = candidates
        cases hshown : shown spelling run witnesses judgedPin candidates one.call with
        | error why =>
          cases hshown' : shown spelling run witnesses judgedPin candidates other.call with
          | error why' =>
            obtain rfl := shown_error hkey hkey' hshown hshown'
            rfl
          | ok order' => rfl
        | ok order =>
          cases hshown' : shown spelling run witnesses judgedPin candidates other.call with
          | error why' => rfl
          | ok order' =>
            have hordered : ordered judgedPin .bothWays [order, order'] =
                ordered judgedPin .bothWays [order', order] := by
              have hreverse : order = order'.reverse ↔ order' = order.reverse :=
                ⟨fun h => by rw [h, reverse_reverse],
                  fun h => by rw [h, reverse_reverse]⟩
              exact if_congr hreverse rfl rfl
            change ite _ _ (ite _ _ (ordered judgedPin .bothWays [order, order'])) =
              ite _ _ (ite _ _ (ordered judgedPin .bothWays [order', order]))
            rw [hordered]
      · simp [hsame, Ne.symm hsame]

theorem pair_of_perm {one other : Seen} {judges : List Seen} (h : judges.Perm [one, other]) :
    judges = [one, other] ∨ judges = [other, one] := by
  match judges, h.length_eq with
  | [first, second], _ =>
    have hfirst : first ∈ [one, other] := h.mem_iff.1 mem_cons_self
    rcases mem_cons.1 hfirst with rfl | hfirst
    · exact .inl (by rw [perm_singleton.1 h.cons_inv])
    · obtain rfl := mem_singleton.1 hfirst
      have hswap : [first, second].Perm [first, one] := h.trans (.swap first one [])
      exact .inr (by rw [perm_singleton.1 hswap.cons_inv])

theorem judgedAsPinned_congr (h : run'.publishedBy = run.publishedBy)
    {seen seen' finals finals' : List Seen} (hseen : seen'.Perm seen)
    (hfinals : finals'.Perm finals) :
    judgedAsPinned spelling run' witnesses judgedPin seen' finals' =
      judgedAsPinned spelling run witnesses judgedPin seen finals := by
  have hjudges := hfinals.filter (!·.answering)
  rw [judgedAsPinned, judgedAsPinned, hjudges.length_eq, judgedBy_congr h hseen]
  generalize finals.filter (!·.answering) = judges at *
  generalize finals'.filter (!·.answering) = judges' at *
  by_cases horder : judgedPin.order = some .bothWays
  · rw [if_pos horder]
    split
    · rfl
    · rename_i hasked
      obtain ⟨one, other, rfl⟩ := length_eq_two.1 (not_not.1 hasked)
      rcases pair_of_perm hjudges with rfl | rfl
      · rfl
      · exact judgedBy_swap seen other one horder
  · rw [if_neg horder]
    split
    · rfl
    · rename_i hasked
      obtain ⟨one, rfl⟩ := length_eq_one_iff.1 (not_not.1 hasked)
      rw [perm_singleton.1 hjudges]

end

/-! ## Runs listed otherwise -/

/-- A run with its calls and tools listed in another order. -/
structure Relisted (run run' : TracedRun) where
  publishedBy : run'.publishedBy = run.publishedBy
  order : Fin run'.servedForIt.length ≃ Fin run.servedForIt.length
  calls : ∀ place, run'.servedForIt.get place = run.servedForIt.get (order place)
  tools : run'.toolsServedForIt.Perm run.toolsServedForIt

theorem perm_ofFn {α : Type} {n n' : Nat} {f : Fin n → α} {f' : Fin n' → α}
    (order : Fin n' ≃ Fin n) (h : ∀ place, f' place = f (order place)) :
    (List.ofFn f').Perm (List.ofFn f) := by
  rw [← Multiset.coe_eq_coe, ← Fin.univ_val_map, ← Fin.univ_val_map]
  have hf : f' = f ∘ order := funext h
  rw [hf, ← Multiset.map_map]
  exact congrArg (Multiset.map f) (congrArg Finset.val (Finset.map_univ_equiv order))

section

variable {spelling : Spelling} {run run' : TracedRun} {witnesses : Witnesses}

theorem Relisted.servedForIt (h : Relisted run run') :
    run'.servedForIt.Perm run.servedForIt := by
  have hperm := perm_ofFn h.order h.calls
  rwa [ofFn_get, ofFn_get] at hperm

/-! ### The marks -/

theorem callKey_congr (h : run'.publishedBy = run.publishedBy)
    (pin : Evaluations.VersionReference) :
    callKey run' witnesses pin = callKey run witnesses pin := by
  funext call
  rw [callKey, callKey, witnessKey_congr h]

theorem toolKey_congr (h : run'.publishedBy = run.publishedBy) :
    toolKey run' witnesses = toolKey run witnesses := by
  funext tool
  rw [toolKey, toolKey, witnessKey_congr h]

theorem Relisted.made_iff (h : Relisted run run') {pin : Evaluations.VersionReference}
    {input : Value} {call : TracedCall} :
    Made spelling run' witnesses pin input call ↔ Made spelling run witnesses pin input call := by
  have hcallRule : callRule spelling run' witnesses pin = callRule spelling run witnesses pin := by
    funext call
    rw [callRule, callRule, callKey_congr h.publishedBy]
  have htoolRule : toolRule run' witnesses = toolRule run witnesses := by
    funext tool
    rw [toolRule, toolRule, toolKey_congr h.publishedBy]
  have hrules : ∀ rule, rule ∈ groundingRules spelling run' witnesses pin ↔
      rule ∈ groundingRules spelling run witnesses pin := by
    intro rule
    simp only [mem_groundingRules, hcallRule, htoolRule, h.servedForIt.mem_iff, h.tools.mem_iff]
  have hcarried : ∀ fact, fact ∈ carried spelling run' witnesses pin input ↔
      fact ∈ carried spelling run witnesses pin input := by
    intro fact
    simp only [mem_carried, callKey_congr h.publishedBy, toolKey_congr h.publishedBy,
      h.servedForIt.mem_iff, h.tools.mem_iff]
  have hderived : ∀ fact, Derived (groundingRules spelling run' witnesses pin)
      (carried spelling run' witnesses pin input) fact ↔
        Derived (groundingRules spelling run witnesses pin)
          (carried spelling run witnesses pin input) fact := fun fact =>
    ⟨.mono (fun rule => (hrules rule).1) fun fact => (hcarried fact).1,
      .mono (fun rule => (hrules rule).2) fun fact => (hcarried fact).2⟩
  rw [← enabled_callRule, ← enabled_callRule, Enabled, Enabled, hcallRule]
  simp only [hderived]

/-! ### The choice -/

theorem mem_wentOn {reply : String} : reply ∈ wentOn run witnesses ↔
    Derived ((run.toolsServedForIt.filter fun tool =>
        (witnessKey run witnesses tool.publishedBy).isSome).map onwardRule)
      ((run.servedForIt.filter fun call =>
        (witnessKey run witnesses call.publishedBy).isSome).flatMap fun call =>
          call.rendered ++ call.derived.map (·.2)) reply := by
  rw [wentOn]
  refine mem_saturate fun rule hrule facts more hmore henabled => ?_
  obtain ⟨tool, -, rfl⟩ := mem_map.1 hrule
  simp only [onwardRule, any_eq_true, contains_iff_mem] at henabled ⊢
  obtain ⟨returned, hreturned, hfact⟩ := henabled
  exact ⟨returned, hreturned, hmore hfact⟩

theorem Relisted.mem_wentOn (h : Relisted run run') {reply : String} :
    reply ∈ wentOn run' witnesses ↔ reply ∈ wentOn run witnesses := by
  have hcalls := h.servedForIt.filter fun call =>
    (witnessKey run witnesses call.publishedBy).isSome
  have htools := h.tools.filter fun tool =>
    (witnessKey run witnesses tool.publishedBy).isSome
  rw [Traced.mem_wentOn, Traced.mem_wentOn, witnessKey_congr h.publishedBy]
  exact ⟨.mono (htools.map onwardRule).subset (hcalls.flatMap_right _).subset,
    .mono (htools.map onwardRule).symm.subset (hcalls.flatMap_right _).symm.subset⟩

theorem Relisted.finals (h : Relisted run run') {seen seen' : List Seen}
    (hseen : seen'.Perm seen) :
    (finals run' witnesses seen').Perm (finals run witnesses seen) := by
  have htakings := (hseen.filter (·.answering)).filterMap (·.call.taking)
  rw [Traced.finals, Traced.finals]
  have hwent : ∀ reply, (wentOn run' witnesses).contains reply =
      (wentOn run witnesses).contains reply := by
    intro reply
    rw [Bool.eq_iff_iff, contains_iff_mem, contains_iff_mem, h.mem_wentOn]
  have htaken : ∀ taking, ((seen'.filter (·.answering)).filterMap (·.call.taking)).contains taking =
      ((seen.filter (·.answering)).filterMap (·.call.taking)).contains taking := by
    intro taking
    rw [Bool.eq_iff_iff, contains_iff_mem, contains_iff_mem, htakings.mem_iff]
  simp only [funext hwent, funext htaken]
  exact ((hseen.filter _).filter _).filter _

theorem seenOf_eq (grounded : List Bool) (answeredBy : List Nat) :
    seenOf spelling run witnesses grounded answeredBy = List.ofFn fun place =>
      { call := run.servedForIt.get place
        replies := ((witnessKey run witnesses (run.servedForIt.get place).publishedBy).map
          (repliesOf spelling witnesses (run.servedForIt.get place))).getD []
        grounded := (grounded[place.val]?).getD false
        answering := answeredBy.contains place.val } := by
  refine ext_getElem (by simp [seenOf]) fun place hplace hplace' => ?_
  simp [seenOf]

theorem Relisted.seenOf (h : Relisted run run') {grounded grounded' : List Bool}
    {answeredBy answeredBy' : List Nat}
    (hgrounded : ∀ place, grounded'[place.val]? = grounded[(h.order place).val]?)
    (hanswered : ∀ place, place.val ∈ answeredBy' ↔ (h.order place).val ∈ answeredBy) :
    (seenOf spelling run' witnesses grounded' answeredBy').Perm
      (seenOf spelling run witnesses grounded answeredBy) := by
  rw [seenOf_eq, seenOf_eq]
  refine perm_ofFn h.order fun place => ?_
  have hsame : answeredBy'.contains place.val = answeredBy.contains (h.order place).val := by
    rw [Bool.eq_iff_iff, contains_iff_mem, contains_iff_mem, hanswered]
  rw [h.calls, hgrounded, hsame, witnessKey_congr h.publishedBy]

theorem replies_of_mem_finals {seen : List Seen} {final : Seen}
    (h : final ∈ Traced.finals run witnesses seen) : final.replies ≠ [] := by
  rw [Traced.finals] at h
  simp only [mem_filter] at h
  simpa using h.1.1.2

/-- **The choice** does not depend on the order of listing. -/
theorem Relisted.chosenAsPinned (h : Relisted run run') {grounded grounded' : List Bool}
    {answeredBy answeredBy' : List Nat} (inParts : Bool)
    (hgrounded : ∀ place, grounded'[place.val]? = grounded[(h.order place).val]?)
    (hanswered : ∀ place, place.val ∈ answeredBy' ↔ (h.order place).val ∈ answeredBy) :
    chosenAsPinned spelling run' witnesses grounded' answeredBy' inParts =
      chosenAsPinned spelling run witnesses grounded answeredBy inParts := by
  have hseen : (Traced.seenOf spelling run' witnesses grounded' answeredBy').Perm
      (Traced.seenOf spelling run witnesses grounded answeredBy) := h.seenOf hgrounded hanswered
  rw [Traced.chosenAsPinned, Traced.chosenAsPinned]
  generalize Traced.seenOf spelling run witnesses grounded answeredBy = seen at *
  generalize Traced.seenOf spelling run' witnesses grounded' answeredBy' = seen' at *
  have hfinals : (Traced.finals run' witnesses seen').Perm (Traced.finals run witnesses seen) :=
    h.finals hseen
  have hfull : ∀ final ∈ Traced.finals run witnesses seen, final.replies ≠ [] :=
    fun final hfinal => replies_of_mem_finals hfinal
  generalize Traced.finals run witnesses seen = finals at *
  generalize Traced.finals run' witnesses seen' = finals' at *
  rw [hfinals.all_eq, hfinals.all_eq]
  split
  · rfl
  · rename_i hothers
    have hsome : finals ≠ [] := by
      rintro rfl
      exact hothers rfl
    split
    · rfl
    · cases hchosen : witnesses.chosen with
      | none => rfl
      | some choosing =>
        cases choosing with
        | first => exact firstPicked_congr hfinals hsome
        | mostOf n => exact mostPicked_congr hfinals hfull n
        | judged prompt version pick order =>
          exact judgedAsPinned_congr h.publishedBy hseen hfinals

end

/-! ## Witnessed calls -/

section

variable (spelling : Spelling) (run : TracedRun) (witnesses : Witnesses)
  (variant : VariantManifest)

/-- **Witnessed calls are grounded by a finite derivation and nothing else**: the marks are those of
the least set, calls fed only by each other are not marked, and neither the marks nor the verdict
about the choice change when the calls and tools are listed in another order. -/
theorem witnessed_exact (input : Option Value) :
    (∀ (place : Nat) (call : TracedCall), run.servedForIt[place]? = some call →
      ∃ mark, (groundedCalls spelling run witnesses variant input)[place]? = some mark ∧
        (mark = true ↔ Grounded spelling run witnesses variant input call)) ∧
    (∀ (value : Value) (one other : TracedCall), input = some value →
      FedBy spelling run witnesses value one other →
      FedBy spelling run witnesses value other one →
      ∀ place : Nat, run.servedForIt[place]? = some one →
        (groundedCalls spelling run witnesses variant input)[place]? = some false) ∧
    ∀ (run' : TracedRun) (relisted : Relisted run run'),
      (∀ place, (groundedCalls spelling run' witnesses variant input)[place.val]? =
        (groundedCalls spelling run witnesses variant input)[(relisted.order place).val]?) ∧
      ∀ (grounded grounded' : List Bool) (answeredBy answeredBy' : List Nat) (inParts : Bool),
        (∀ place, grounded'[place.val]? = grounded[(relisted.order place).val]?) →
        (∀ place, place.val ∈ answeredBy' ↔ (relisted.order place).val ∈ answeredBy) →
        chosenAsPinned spelling run' witnesses grounded' answeredBy' inParts =
          chosenAsPinned spelling run witnesses grounded answeredBy inParts := by
  refine ⟨fun place call hcall => marked_groundedCalls spelling run witnesses variant input hcall,
    ?_, fun run' relisted => ⟨fun place => ?_, fun grounded grounded' answeredBy answeredBy'
      inParts hgrounded hanswered => relisted.chosenAsPinned inParts hgrounded hanswered⟩⟩
  · rintro value one other rfl hone hother place hplace
    obtain ⟨mark, hmark, hiff⟩ :=
      marked_groundedCalls spelling run witnesses variant (some value) hplace
    cases mark with
    | false => exact hmark
    | true =>
      obtain ⟨pin, value', -, hvalue, hmade⟩ := hiff.1 rfl
      cases hvalue
      exact absurd hmade (not_made_of_fed hone hother)
  · have hplace' := List.getElem?_eq_getElem place.isLt
    have hplace := List.getElem?_eq_getElem (relisted.order place).isLt
    obtain ⟨mark', hmark', hiff'⟩ :=
      marked_groundedCalls spelling run' witnesses variant input hplace'
    obtain ⟨mark, hmark, hiff⟩ := marked_groundedCalls spelling run witnesses variant input hplace
    have hsame : run'.servedForIt[place.val] = run.servedForIt[(relisted.order place).val] :=
      relisted.calls place
    have hgrounded : Grounded spelling run' witnesses variant input run'.servedForIt[place.val] ↔
        Grounded spelling run witnesses variant input
          run.servedForIt[(relisted.order place).val] := by
      simp only [Grounded, relisted.made_iff, hsame]
    rw [hmark', hmark]
    exact congrArg some (Bool.eq_iff_iff.2 (hiff'.trans (hgrounded.trans hiff.symm)))

end

/-- Two calls, each rendered with nothing but the other's reply. -/
def looped (rendered replied : String) : TracedCall where
  promptName := some "answer"
  promptVersion := some "1"
  promptVerified := some true
  promptExact := some true
  publishedBy := some "gateway"
  replied := [replied]
  rendered := [rendered]
  placed := []
  derived := []
  taken := []
  taking := none
  tookNothing := false
  startedMs := none

def loop : TracedRun := ⟨some "application", [looped "b" "a", looped "a" "b"], []⟩

def loopAgain : TracedRun := ⟨some "application", [looped "a" "b", looped "b" "a"], []⟩

/-- Every text is its own digest. -/
def plain : Spelling := ⟨fun _ _ text => text, fun _ => "value"⟩

def gateway : Witnesses where
  named := []
  keys := (∅ : BTreeMap String Key).insert "gateway" 1
  taking := none
  chosen := none
  toolCode := ∅
  judgePlaces := none

def swapped : Fin 2 ≃ Fin 2 := Equiv.swap 0 1

def relistedLoop : Relisted loop loopAgain where
  publishedBy := rfl
  order := swapped
  calls := Fin.forall_fin_two.2 ⟨rfl, rfl⟩
  tools := .refl _

theorem fedBy_looped {one other : String} (hother : one ≠ "question")
    (hcalls : ∀ call ∈ loop.servedForIt, one ∈ call.replied → call = looped other one) :
    FedBy plain loop gateway (.string "question") (looped one other) (looped other one) := by
  refine ⟨one, mem_singleton.2 rfl, fun source htaken => ?_⟩
  have hsource : source = one := by
    cases htaken with
    | refl => rfl
    | tail _ h => cases h
  subst hsource
  refine ⟨fun key text htext => ?_, fun tool htool => ?_, fun call hcall key hreply => ?_⟩
  · obtain rfl := mem_singleton.1 htext
    exact hother.symm
  · cases htool
  · have htaken : call.taken = [] := by
      rcases mem_cons.1 hcall with rfl | hcall
      · rfl
      · obtain rfl := mem_singleton.1 hcall
        rfl
    rw [repliesOf, takenBy, htaken, filter_nil, append_nil] at hreply
    exact hcalls call hcall hreply

theorem witnessed_exact_loop :
    (groundedCalls plain loop gateway ⟨some ⟨"answer", "1"⟩⟩ (some (.string "question")))[0]? =
        some false ∧
      chosenAsPinned plain loopAgain gateway [false, true] [1] false =
        chosenAsPinned plain loop gateway [true, false] [0] false := by
  obtain ⟨-, hfed, hrelisted⟩ := witnessed_exact plain loop gateway ⟨some ⟨"answer", "1"⟩⟩
    (some (.string "question"))
  refine ⟨hfed _ (looped "b" "a") (looped "a" "b") rfl (fedBy_looped (by decide) ?_)
    (fedBy_looped (by decide) ?_) 0 rfl, (hrelisted loopAgain relistedLoop).2 _ _ _ _ _
      (Fin.forall_fin_two.2 ⟨rfl, rfl⟩) (Fin.forall_fin_two.2 ⟨by decide, by decide⟩)⟩
  · simp [loop, looped]
  · simp [loop, looped]

end Aiwatcher.Traced
