import Aiwatcher.Traced.Witnessed

/-!
# Aiwatcher.Traced.Grounded

`groundedCalls` marks the least set of calls each made of the pinned prompt and of nothing that is
not accounted for (`fired_groundedCalls`).
-/

namespace Aiwatcher.Traced

open Library List Bool

/-! ## Values taken out of others -/

/-- Taken out of one value come others, in steps the witness repeated. -/
def Taken (derived : List (String × String)) : String → String → Prop :=
  Relation.ReflTransGen fun source value => (value, source) ∈ derived

/-- The steps whose values are not known. -/
def unknownSteps (derived : List (String × String)) (known : List String) : Nat :=
  derived.countP fun pair => !known.contains pair.1

variable {derived : List (String × String)} {known : List String} {steps : Nat} {value : String}

theorem mem_knownThrough_of_mem (h : value ∈ known) : value ∈ knownThrough steps derived known := by
  induction steps generalizing known with
  | zero => exact h
  | succ steps ih =>
    rw [knownThrough]
    split
    · exact ih (mem_cons_of_mem _ h)
    · exact h

theorem taken_of_mem_knownThrough (h : value ∈ knownThrough steps derived known) :
    ∃ source ∈ known, Taken derived source value := by
  induction steps generalizing known with
  | zero => exact ⟨value, h, .refl⟩
  | succ steps ih =>
    rw [knownThrough] at h
    split at h
    · rename_i taken source hfound
      obtain ⟨first, hfirst, htaken⟩ := ih h
      have hknown := find?_some hfound
      rw [and_eq_true, contains_iff_mem] at hknown
      rcases mem_cons.1 hfirst with rfl | hfirst
      · exact ⟨source, hknown.1, .head (mem_of_find?_eq_some hfound) htaken⟩
      · exact ⟨first, hfirst, htaken⟩
    · exact ⟨value, h, .refl⟩

theorem unknownSteps_cons_lt {value source : String} (hpair : (value, source) ∈ derived)
    (hnew : value ∉ known) :
    unknownSteps derived (value :: known) < unknownSteps derived known := by
  obtain ⟨before, after, rfl⟩ := append_of_mem hpair
  have hfewer : ∀ pairs : List (String × String),
      unknownSteps pairs (value :: known) ≤ unknownSteps pairs known := fun pairs =>
    countP_mono_left fun pair _ h => by grind
  have hbefore := hfewer before
  have hafter := hfewer after
  simp only [unknownSteps, countP_append, countP_cons] at *
  simp [hnew] at *
  omega

theorem closed_knownThrough (hsteps : unknownSteps derived known ≤ steps) {source value : String}
    (hpair : (value, source) ∈ derived) (hsource : source ∈ knownThrough steps derived known) :
    value ∈ knownThrough steps derived known := by
  induction steps generalizing known with
  | zero =>
    have hnone : ∀ pair ∈ derived, ¬ (!known.contains pair.1) = true :=
      countP_eq_zero.1 (Nat.le_zero.1 hsteps)
    have hknown := hnone _ hpair
    simpa [knownThrough] using hknown
  | succ steps ih =>
    rw [knownThrough] at hsource ⊢
    split at hsource
    · rename_i taken from_ hfound
      have hnew := find?_some hfound
      have hlt := unknownSteps_cons_lt (mem_of_find?_eq_some hfound)
        (by simpa using (and_eq_true_iff.1 hnew).2)
      exact ih (by omega) hsource
    · rename_i hnone
      have hknown := find?_eq_none.1 hnone _ hpair
      simp only [and_eq_true, contains_iff_mem, not_eq_true'] at hknown
      simpa [hsource] using hknown

theorem mem_knownThrough :
    value ∈ knownThrough derived.length derived known ↔
      ∃ source ∈ known, Taken derived source value := by
  refine ⟨taken_of_mem_knownThrough, ?_⟩
  rintro ⟨source, hsource, htaken⟩
  induction htaken with
  | refl => exact mem_knownThrough_of_mem hsource
  | tail _ hpair ih => exact closed_knownThrough countP_le_length hpair ih

/-! ## Accounts -/

section

variable {spelling : Spelling} {run : TracedRun} {witnesses : Witnesses}
  {pin : Evaluations.VersionReference} {input : Value}

/-- A value accounted for in finitely many steps: it came in the case's input, in a reply of a call
made of the pinned prompt and of values taken out of accounted ones, or in what a tool returned to
arguments accounted for. -/
inductive Accounted (spelling : Spelling) (run : TracedRun) (witnesses : Witnesses)
    (pin : Evaluations.VersionReference) (input : Value) : String → Prop
  | called {call : TracedCall} {key : Key} {text : String} : call ∈ run.servedForIt →
      callKey run witnesses pin call = some key → text ∈ carriedAs spelling input →
      Accounted spelling run witnesses pin input (spelling.digest key .replied text)
  | used {tool : TracedTool} {key : Key} {text : String} : tool ∈ run.toolsServedForIt →
      toolKey run witnesses tool = some key → text ∈ carriedAs spelling input →
      Accounted spelling run witnesses pin input (spelling.digest key .replied text)
  | reply {call : TracedCall} {key : Key} {sourceOf : String → String} {fact : String} :
      call ∈ run.servedForIt → callKey run witnesses pin call = some key →
      (∀ value ∈ call.rendered, Accounted spelling run witnesses pin input (sourceOf value)) →
      (∀ value ∈ call.rendered, Taken call.derived (sourceOf value) value) →
      fact ∈ repliesOf spelling witnesses call key →
      Accounted spelling run witnesses pin input fact
  | returned {tool : TracedTool} {key : Key} {fact : String} : tool ∈ run.toolsServedForIt →
      toolKey run witnesses tool = some key →
      (∀ part ∈ tool.arguments, Accounted spelling run witnesses pin input part) →
      fact ∈ tool.returned → Accounted spelling run witnesses pin input fact

/-- A call of the least set: on the pinned prompt, with every value it was rendered with accounted
for. -/
def Made (spelling : Spelling) (run : TracedRun) (witnesses : Witnesses)
    (pin : Evaluations.VersionReference) (input : Value) (call : TracedCall) : Prop :=
  (callKey run witnesses pin call).isSome ∧ ∀ value ∈ call.rendered,
    ∃ source, Accounted spelling run witnesses pin input source ∧ Taken call.derived source value

theorem mem_carried {fact : String} :
    fact ∈ carried spelling run witnesses pin input ↔
      ∃ key text, ((∃ call ∈ run.servedForIt, callKey run witnesses pin call = some key) ∨
        ∃ tool ∈ run.toolsServedForIt, toolKey run witnesses tool = some key) ∧
        text ∈ carriedAs spelling input ∧ spelling.digest key .replied text = fact := by
  simp only [carried, mem_flatMap, mem_append, mem_filterMap, mem_map]
  constructor
  · rintro ⟨key, hkey, text, htext, rfl⟩
    exact ⟨key, text, hkey, htext, rfl⟩
  · rintro ⟨key, text, hkey, htext, rfl⟩
    exact ⟨key, hkey, text, htext, rfl⟩

theorem mem_groundingRules {rule : Rule String} :
    rule ∈ groundingRules spelling run witnesses pin ↔
      (∃ call ∈ run.servedForIt, callRule spelling run witnesses pin call = rule) ∨
        ∃ tool ∈ run.toolsServedForIt, toolRule run witnesses tool = rule := by
  simp [groundingRules]

theorem callRule_enabled {call : TracedCall} {facts : List String} :
    (callRule spelling run witnesses pin call).enabled facts = true ↔
      (callKey run witnesses pin call).isSome ∧
        ∀ value ∈ call.rendered, ∃ source ∈ facts, Taken call.derived source value := by
  simp only [callRule, and_eq_true, all_eq_true, contains_iff_mem, mem_knownThrough]

theorem toolRule_enabled {tool : TracedTool} {facts : List String} :
    (toolRule run witnesses tool).enabled facts = true ↔
      (toolKey run witnesses tool).isSome ∧ ∀ part ∈ tool.arguments, part ∈ facts := by
  simp only [toolRule, and_eq_true, all_eq_true, contains_iff_mem]

theorem growing_groundingRules : Growing (groundingRules spelling run witnesses pin) := by
  intro rule hrule facts more hmore henabled
  rcases mem_groundingRules.1 hrule with ⟨call, -, rfl⟩ | ⟨tool, -, rfl⟩
  · rw [callRule_enabled] at henabled ⊢
    refine ⟨henabled.1, fun value hvalue => ?_⟩
    obtain ⟨source, hsource, htaken⟩ := henabled.2 value hvalue
    exact ⟨source, hmore hsource, htaken⟩
  · rw [toolRule_enabled] at henabled ⊢
    exact ⟨henabled.1, fun part hpart => hmore (henabled.2 part hpart)⟩

theorem derived_iff_accounted {fact : String} :
    Derived (groundingRules spelling run witnesses pin)
        (carried spelling run witnesses pin input) fact ↔
      Accounted spelling run witnesses pin input fact := by
  constructor
  · intro h
    induction h with
    | start hfact =>
      obtain ⟨key, text, ⟨call, hcall, hkey⟩ | ⟨tool, htool, hkey⟩, htext, rfl⟩ :=
        mem_carried.1 hfact
      · exact .called hcall hkey htext
      · exact .used htool hkey htext
    | @fired rule facts fact hrule _ henabled hgiven ih =>
      rcases mem_groundingRules.1 hrule with ⟨call, hcall, rfl⟩ | ⟨tool, htool, rfl⟩
      · rw [callRule_enabled] at henabled
        obtain ⟨hsome, hsources⟩ := henabled
        obtain ⟨key, hkey⟩ := Option.isSome_iff_exists.1 hsome
        choose! sourceOf hsourceOf using hsources
        refine .reply hcall hkey (fun value hvalue => ih _ (hsourceOf value hvalue).1)
          (fun value hvalue => (hsourceOf value hvalue).2) ?_
        simpa [callRule, hkey] using hgiven
      · rw [toolRule_enabled] at henabled
        obtain ⟨key, hkey⟩ := Option.isSome_iff_exists.1 henabled.1
        exact .returned htool hkey (fun part hpart => ih part (henabled.2 part hpart)) hgiven
  · intro h
    induction h with
    | called hcall hkey htext =>
      exact .start (mem_carried.2 ⟨_, _, .inl ⟨_, hcall, hkey⟩, htext, rfl⟩)
    | used htool hkey htext =>
      exact .start (mem_carried.2 ⟨_, _, .inr ⟨_, htool, hkey⟩, htext, rfl⟩)
    | @reply call key sourceOf fact hcall hkey _ htaken hfact ih =>
      refine .fired (mem_groundingRules.2 (.inl ⟨call, hcall, rfl⟩))
        (fun known (hknown : known ∈ call.rendered.map sourceOf) => ?_)
        (callRule_enabled.2 ⟨by simp [hkey], fun value hvalue => ?_⟩) ?_
      · obtain ⟨value, hvalue, rfl⟩ := mem_map.1 hknown
        exact ih value hvalue
      · exact ⟨sourceOf value, mem_map_of_mem hvalue, htaken value hvalue⟩
      · simpa [callRule, hkey] using hfact
    | @returned tool key fact htool hkey _ hfact ih =>
      exact .fired (mem_groundingRules.2 (.inr ⟨tool, htool, rfl⟩)) ih
        (toolRule_enabled.2 ⟨by simp [hkey], fun part hpart => hpart⟩) hfact

theorem enabled_callRule {call : TracedCall} :
    Enabled (groundingRules spelling run witnesses pin)
        (carried spelling run witnesses pin input) (callRule spelling run witnesses pin call) ↔
      Made spelling run witnesses pin input call := by
  simp only [Enabled, callRule_enabled, derived_iff_accounted, Made]
  constructor
  · rintro ⟨facts, hfacts, hkey, hsources⟩
    refine ⟨hkey, fun value hvalue => ?_⟩
    obtain ⟨source, hsource, htaken⟩ := hsources value hvalue
    exact ⟨source, hfacts source hsource, htaken⟩
  · rintro ⟨hkey, hsources⟩
    choose! sourceOf hsourceOf using hsources
    refine ⟨call.rendered.map sourceOf, fun known hknown => ?_, hkey, fun value hvalue =>
      ⟨sourceOf value, mem_map_of_mem hvalue, (hsourceOf value hvalue).2⟩⟩
    obtain ⟨value, hvalue, rfl⟩ := mem_map.1 hknown
    exact (hsourceOf value hvalue).1

end

/-! ## The marks -/

/-- The call is in the least set, for a variant that pins a prompt and a case with an input. -/
def Grounded (spelling : Spelling) (run : TracedRun) (witnesses : Witnesses)
    (variant : VariantManifest) (input : Option Value) (call : TracedCall) : Prop :=
  ∃ pin value, variant.prompt = some pin ∧ input = some value ∧
    Made spelling run witnesses pin value call

section

variable (spelling : Spelling) (run : TracedRun) (witnesses : Witnesses)
  (variant : VariantManifest) (input : Option Value)

/-- **The marks** are those of the least set. -/
theorem marked_groundedCalls {place : Nat} {call : TracedCall}
    (hcall : run.servedForIt[place]? = some call) :
    ∃ mark, (groundedCalls spelling run witnesses variant input)[place]? = some mark ∧
      (mark = true ↔ Grounded spelling run witnesses variant input call) := by
  rw [groundedCalls.eq_def, Grounded]
  split
  · rename_i pin value hpin
    have hlt : place < run.servedForIt.length := (List.getElem?_eq_some_iff.1 hcall).1
    have hrule : (groundingRules spelling run witnesses pin)[place]? =
        some (callRule spelling run witnesses pin call) := by
      rw [groundingRules, getElem?_append_left (by simpa using hlt), getElem?_map, hcall]
      rfl
    obtain ⟨mark, hmark, hiff⟩ : ∃ fired,
        (saturate (groundingRules spelling run witnesses pin)
          (carried spelling run witnesses pin value)).1[place]? =
            some (callRule spelling run witnesses pin call, fired) ∧
        (fired = true ↔ Enabled (groundingRules spelling run witnesses pin)
          (carried spelling run witnesses pin value) (callRule spelling run witnesses pin call)) :=
      fired_saturate growing_groundingRules hrule
    refine ⟨mark, ?_, ?_⟩
    · rw [getElem?_map, getElem?_take_of_lt hlt, hmark]
      rfl
    · rw [hiff, enabled_callRule]
      simp [hpin]
  · rename_i hnone
    refine ⟨false, by rw [getElem?_map, hcall]; rfl, ?_⟩
    simp only [false_eq_true, false_iff]
    rintro ⟨pin, value, hpin, rfl, -⟩
    exact hnone pin value hpin rfl

end

/-! ## Calls fed by each other -/

section

variable {spelling : Spelling} {run : TracedRun} {witnesses : Witnesses}
  {pin : Evaluations.VersionReference} {input : Value}

/-- The only account of a value could be a reply of the one call: it is neither of the case's input
nor what a tool returned, and no other call gave it. -/
def OnlyFrom (spelling : Spelling) (run : TracedRun) (witnesses : Witnesses) (input : Value)
    (call : TracedCall) (fact : String) : Prop :=
  (∀ key, ∀ text ∈ carriedAs spelling input, spelling.digest key .replied text ≠ fact) ∧
    (∀ tool ∈ run.toolsServedForIt, fact ∉ tool.returned) ∧
    ∀ other ∈ run.servedForIt, ∀ key, fact ∈ repliesOf spelling witnesses other key → other = call

/-- A value the call was rendered with comes, however it was taken out, only from the other's
replies. -/
def FedBy (spelling : Spelling) (run : TracedRun) (witnesses : Witnesses) (input : Value)
    (call other : TracedCall) : Prop :=
  ∃ value ∈ call.rendered, ∀ source, Taken call.derived source value →
    OnlyFrom spelling run witnesses input other source

theorem not_accounted_of_fed {one other : TracedCall}
    (hone : FedBy spelling run witnesses input one other)
    (hother : FedBy spelling run witnesses input other one) {fact : String}
    (h : Accounted spelling run witnesses pin input fact) :
    ¬ OnlyFrom spelling run witnesses input one fact ∧
      ¬ OnlyFrom spelling run witnesses input other fact := by
  induction h with
  | @called call key text hcall hkey htext => exact ⟨fun h => h.1 key text htext rfl, fun h => h.1 key text htext rfl⟩
  | @used tool key text htool hkey htext => exact ⟨fun h => h.1 key text htext rfl, fun h => h.1 key text htext rfl⟩
  | @reply call key sourceOf fact hcall hkey _ htaken hfact ih =>
    constructor
    · intro h
      have hsame := h.2.2 call hcall key hfact
      subst hsame
      obtain ⟨value, hvalue, honly⟩ := hone
      exact (ih value hvalue).2 (honly _ (htaken value hvalue))
    · intro h
      have hsame := h.2.2 call hcall key hfact
      subst hsame
      obtain ⟨value, hvalue, honly⟩ := hother
      exact (ih value hvalue).1 (honly _ (htaken value hvalue))
  | @returned tool key fact htool hkey _ hfact _ =>
    exact ⟨fun h => h.2.1 tool htool hfact, fun h => h.2.1 tool htool hfact⟩

theorem not_made_of_fed {one other : TracedCall}
    (hone : FedBy spelling run witnesses input one other)
    (hother : FedBy spelling run witnesses input other one) :
    ¬ Made spelling run witnesses pin input one := by
  rintro ⟨-, hmade⟩
  obtain ⟨value, hvalue, honly⟩ := id hone
  obtain ⟨source, hsource, htaken⟩ := hmade value hvalue
  exact (not_accounted_of_fed hone hother hsource).2 (honly source htaken)

end

end Aiwatcher.Traced
