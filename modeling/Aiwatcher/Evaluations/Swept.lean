import Aiwatcher.Evaluations.Evidence
import Mathlib.Tactic.SplitIfs

/-!
# Aiwatcher.Evaluations.Swept

What a sweep that nothing interrupts retires.

* `Due` — what it should: a result whose own deadline has passed, or whose source is gone;
* `Falls` — what it does, after the results listed before;
* `swept_iff` — the two are the same exactly if every result whose source is gone is noticed: the
  pair is still admitted, and the verdict is not one that only its first result is held to.
-/

namespace Aiwatcher.Evaluations

open Library Prog List

variable {registry : EvidenceRegistry}
  {resolve : String → Except EvaluationError SourceEvidence} {now : Int}

/-! ## Retiring one result -/

/-- What is stored of every other result, and the claims and approvals, are as before. -/
structure Elsewhere (id : String) (store store' : EvidenceStore) : Prop where
  claims : store'.claims = store.claims
  approvals : store'.approvals = store.approvals
  tombstones : ∀ other ≠ id, store'.tombstones[other]? = store.tombstones[other]?
  content : ∀ other ≠ id, store'.contentOf other = store.contentOf other

theorem Elsewhere.refl (id : String) (store : EvidenceStore) : Elsewhere id store store :=
  ⟨rfl, rfl, fun _ _ => rfl, fun _ _ => rfl⟩

theorem Elsewhere.trans {id : String} {a b c : EvidenceStore} (h : Elsewhere id a b)
    (h' : Elsewhere id b c) : Elsewhere id a c where
  claims := h'.claims.trans h.claims
  approvals := h'.approvals.trans h.approvals
  tombstones other hne := (h'.tombstones other hne).trans (h.tombstones other hne)
  content other hne := (h'.content other hne).trans (h.content other hne)

theorem elsewhere_deleteObject (id digest : String) (store : EvidenceStore) :
    Elsewhere id store (store.deleteObject id digest) where
  claims := rfl
  approvals := rfl
  tombstones _ _ := rfl
  content other hne := by
    rw [EvidenceStore.contentOf, EvidenceStore.deleteObject, Table.getElem?_insert, if_neg (Ne.symm hne)]
    rfl

theorem elsewhere_erase (id : String) (store : EvidenceStore) :
    Elsewhere id store ((erase id).run store).2 ∧
      ((erase id).run store).2.tombstones = store.tombstones := by
  rw [erase, run_bind, run_read, run_forM]
  dsimp only [run_write]
  generalize (store.contentOf id).keys = digests
  induction digests generalizing store with
  | nil => exact ⟨.refl id store, rfl⟩
  | cons digest digests ih =>
    obtain ⟨helse, htombs⟩ := ih (store.deleteObject id digest)
    exact ⟨(elsewhere_deleteObject id digest store).trans helse, htombs⟩

theorem retire_spec (receipt : EvaluationReceipt) (reason : EvidenceState)
    (store : EvidenceStore) :
    Elsewhere receipt.evaluationId store
        ((retire receipt.evaluationId (some receipt) reason).run store).2 ∧
      (((retire receipt.evaluationId (some receipt) reason).run store).2.tombstones[
        receipt.evaluationId]?).isSome := by
  rw [retire]
  simp only [run_bind, run_write]
  obtain ⟨helse, htombs⟩ := elsewhere_erase receipt.evaluationId
    ((store.putRow ⟨receipt, some reason⟩).createTombstone receipt.evaluationId reason)
  rw [htombs]
  constructor
  · refine Elsewhere.trans ?_ helse
    rw [EvidenceStore.createTombstone]
    split
    · exact ⟨rfl, rfl, fun _ _ => rfl, fun _ _ => rfl⟩
    · refine ⟨rfl, rfl, fun other hne => ?_, fun _ _ => rfl⟩
      rw [Table.getElem?_insert, if_neg (Ne.symm hne)]
      rfl
  · rw [EvidenceStore.createTombstone]
    split
    · assumption
    · rw [Table.getElem?_insert, if_pos rfl]
      rfl

/-! ## Verdicts -/

/-- The verdict the source of a pair comes to, if it is one about the source. -/
def verdict (resolve : String → Except EvaluationError SourceEvidence) (store : EvidenceStore)
    (pair : String) : Option (Except EvidenceState (Option Int)) :=
  match ((sourceOf resolve pair).run store).1 with
  | .ok expiry => some (.ok expiry)
  | .error (.unavailable state) => some (.error state)
  | .error _ => none

theorem sourceOf_run (pair : String) (store : EvidenceStore) :
    ((sourceOf resolve pair).run store).2 = store := by
  rw [sourceOf, run_bind, run_read]
  dsimp only
  split
  · rfl
  · split
    · rfl
    · split <;> rfl

theorem verdict_congr {store store' : EvidenceStore} (h : store'.approvals = store.approvals)
    (pair : String) : verdict resolve store' pair = verdict resolve store pair := by
  have hsame : ((sourceOf resolve pair).run store').1 = ((sourceOf resolve pair).run store).1 := by
    rw [sourceOf, run_bind, run_bind, run_read, run_read, h]
    dsimp only
    split
    · rfl
    · split
      · rfl
      · split <;> rfl
  rw [verdict, verdict, hsame]

/-- The header of a result reads. -/
def Asks (registry : EvidenceRegistry) (store : EvidenceStore) (receipt : EvaluationReceipt) :
    Prop :=
  (headerOf registry receipt (store.contentOf receipt.evaluationId)[receipt.version]?).isOk

instance (store : EvidenceStore) (receipt : EvaluationReceipt) :
    Decidable (Asks registry store receipt) := inferInstanceAs (Decidable (_ = true))

/-- A verdict, as a result that is held to it comes off. -/
def heldTo (now : Int) : Except EvidenceState (Option Int) → Except EvidenceState (Option Int)
  | .ok expiry => if expiry.any (· ≤ now) then .error .expired else .ok none
  | verdict => verdict

variable {front : List String} {receipt : EvaluationReceipt} {store store' store'' : EvidenceStore}

theorem ends_of_headerOf {stored : Option Stored} {state : EvidenceState}
    (h : headerOf registry receipt stored = .error (.unavailable state)) :
    ends (.error state) = none := by
  have hopened : ∀ {digest : String} {stored : Option Stored} {state : EvidenceState},
      opened registry digest stored = .error state → ends (.error state) = none := by
    intro digest stored state h
    cases stored with
    | none =>
      cases h
      rfl
    | some stored =>
      rw [opened] at h
      cases hopen : openStored registry stored with
      | error closed =>
        rw [hopen] at h
        cases h
        rw [openStored] at hopen
        split at hopen
        · split at hopen
          · cases hopen
            rfl
          · split at hopen
            · rename_i locked _
              cases hopen
              cases locked <;> rfl
            · cases hopen
        · cases hopen
      | ok opened =>
        rw [hopen] at h
        change (if registry.hash opened.1 ≠ digest then
          Except.error EvidenceState.corruptArtifact else _) = _ at h
        split at h
        · cases h
          rfl
        · split at h
          · cases h
            rfl
          · cases h
  rw [headerOf] at h
  split at h
  · rename_i closed hclosed
    cases h
    exact hopened hclosed
  · split at h
    · rename_i closed hclosed
      cases h
      rw [protectedResult] at hclosed
      split at hclosed
      · cases hclosed
        rfl
      · cases hclosed
    · split at h
      · cases h
        rfl
      · split at h
        · cases h
        · split at h <;> cases h

section Verdicts

variable (receipt : EvaluationReceipt) (sources : Sources) (store : EvidenceStore)

theorem verdictOf_of_known {known : Except EvidenceState (Option Int)}
    (h : sources[pairOf registry receipt]? = some known) :
    (verdictOf registry resolve receipt now sources).run store =
      ((.ok known, sources), store) := by
  rw [verdictOf]
  simp only [h]
  rfl

theorem remembered_of_verdict {pair : String} (hnew : sources[pair]? = none)
    {found : Except EvidenceState (Option Int)} (hfound : verdict resolve store pair = some found) :
    (remembered resolve pair sources).run store =
      ((.ok (found, sources.insert pair found)), store) := by
  rw [verdict] at hfound
  rw [remembered]
  simp only [hnew, run_bind, sourceOf_run]
  cases h : ((sourceOf resolve pair).run store).1 with
  | ok expiry =>
    rw [h] at hfound
    cases hfound
    rfl
  | error error =>
    rw [h] at hfound
    cases error with
    | unavailable state =>
      cases hfound
      rfl
    | _ => cases hfound

theorem remembered_of_no_verdict {pair : String} (hnew : sources[pair]? = none)
    (hnone : verdict resolve store pair = none) :
    ∃ error, (remembered resolve pair sources).run store = ((.error error), store) ∧
      ∀ state, error ≠ .unavailable state := by
  rw [verdict] at hnone
  rw [remembered]
  simp only [hnew, run_bind, sourceOf_run]
  cases h : ((sourceOf resolve pair).run store).1 with
  | ok expiry =>
    rw [h] at hnone
    cases hnone
  | error error =>
    rw [h] at hnone
    cases error with
    | unavailable state => cases hnone
    | _ => exact ⟨_, rfl, by simp⟩

section

variable (hnew : sources[pairOf registry receipt]? = none)

include hnew

theorem verdictOf_of_asks (hasks : Asks registry store receipt)
    {found : Except EvidenceState (Option Int)}
    (hfound : verdict resolve store (pairOf registry receipt) = some found) :
    (verdictOf registry resolve receipt now sources).run store =
      ((.ok (heldTo now found), sources.insert (pairOf registry receipt) found), store) := by
  rw [Asks] at hasks
  rw [verdictOf]
  simp only [hnew, run_bind]
  rw [readMetadata, run_bind, run_read]
  dsimp only
  cases hheader : headerOf registry receipt
    (store.contentOf receipt.evaluationId)[receipt.version]? with
  | error error =>
    rw [hheader] at hasks
    cases hasks
  | ok header =>
    simp only [run_bind, remembered_of_verdict sources store hnew hfound]
    cases found with
    | error state => rfl
    | ok expiry =>
      rw [heldTo]
      by_cases hpast : expiry.any (· ≤ now)
      · simp only [if_pos hpast]
        rfl
      · simp only [if_neg hpast]
        rfl

theorem verdictOf_of_no_verdict (hasks : Asks registry store receipt)
    (hnone : verdict resolve store (pairOf registry receipt) = none) :
    ∃ error, (verdictOf registry resolve receipt now sources).run store =
      ((.error error, sources), store) := by
  obtain ⟨error, hrun, hother⟩ := remembered_of_no_verdict sources store hnew hnone
  refine ⟨error, ?_⟩
  rw [Asks] at hasks
  rw [verdictOf]
  simp only [hnew, run_bind]
  rw [readMetadata, run_bind, run_read]
  dsimp only
  cases hheader : headerOf registry receipt
    (store.contentOf receipt.evaluationId)[receipt.version]? with
  | error error =>
    rw [hheader] at hasks
    cases hasks
  | ok header =>
    simp only [run_bind, hrun, run_pure]

theorem verdictOf_of_not_asks (hasks : ¬ Asks registry store receipt) :
    ∃ answer, (verdictOf registry resolve receipt now sources).run store =
        ((answer, sources), store) ∧
      ∀ found, answer = .ok found → ends found = none := by
  rw [Asks] at hasks
  rw [verdictOf]
  simp only [hnew, run_bind]
  rw [readMetadata, run_bind, run_read]
  dsimp only
  cases hheader : headerOf registry receipt
    (store.contentOf receipt.evaluationId)[receipt.version]? with
  | ok header =>
    rw [hheader] at hasks
    exact absurd rfl hasks
  | error error =>
    simp only [run_pure]
    split
    · rename_i heq
      cases heq
    · rename_i state heq
      cases heq
      refine ⟨_, rfl, ?_⟩
      rintro found ⟨⟩
      exact ends_of_headerOf hheader
    · rename_i heq
      cases heq
      refine ⟨_, rfl, ?_⟩
      rintro found ⟨⟩

end

end Verdicts

/-! ## What is due, and what falls -/

/-- A committed result the sweep has to ask about. -/
def Lives (now : Int) (store : EvidenceStore) (id : String) (receipt : EvaluationReceipt) : Prop :=
  store.claims[id]? = some (.committed receipt) ∧ store.tombstones[id]? = none ∧
    now < receipt.expiresAt

/-- A result listed in `front` has asked about the pair. -/
def Known (registry : EvidenceRegistry) (now : Int) (store : EvidenceStore) (front : List String)
    (pair : String) : Prop :=
  ∃ id ∈ front, ∃ receipt, Lives now store id receipt ∧ pairOf registry receipt = pair ∧
    Asks registry store receipt

/-- The adapter's answer: the source is deleted, or its expiry is at or before `now`. -/
def Gone (now : Int) : Except EvaluationError SourceEvidence → Prop
  | .ok source => source.expiresAt.any (· ≤ now)
  | .error (.unavailable .deletedSource) => True
  | .error (.unavailable .expired) => True
  | .error _ => False

def Due (registry : EvidenceRegistry)
    (resolve : String → Except EvaluationError SourceEvidence) (now : Int)
    (receipt : EvaluationReceipt) : Prop :=
  receipt.expiresAt ≤ now ∨ Gone now (resolve (pairOf registry receipt))

/-- The first result of a pair is held to the verdict, and the others end only by it. -/
def Falls (registry : EvidenceRegistry)
    (resolve : String → Except EvaluationError SourceEvidence) (now : Int) (store : EvidenceStore)
    (front : List String) (receipt : EvaluationReceipt) : Prop :=
  receipt.expiresAt ≤ now ∨
    ∃ found, verdict resolve store (pairOf registry receipt) = some found ∧
      (Known registry now store front (pairOf registry receipt) ∧ (ends found).isSome ∨
        ¬ Known registry now store front (pairOf registry receipt) ∧
          Asks registry store receipt ∧ (ends (heldTo now found)).isSome)

/-! ## The run -/

/-- The ids listed before one. -/
def listedBefore (listed : List String) (id : String) : List String :=
  listed.takeWhile (· ≠ id)

theorem listedBefore_append_of_mem {id : String} (rest : List String) (h : id ∈ front) :
    listedBefore (front ++ rest) id = listedBefore front id := by
  induction front with
  | nil => cases h
  | cons first front ih =>
    rw [listedBefore, listedBefore, cons_append, takeWhile_cons, takeWhile_cons]
    split
    · rename_i hne
      have hmem : id ∈ front := by grind
      exact congrArg (first :: ·) (ih hmem)
    · rfl

theorem listedBefore_append_cons {id : String} (rest : List String) (h : id ∉ front) :
    listedBefore (front ++ id :: rest) id = front := by
  rw [listedBefore, takeWhile_append_of_pos (fun other hother => by grind)]
  simp

/-- Every claim is kept under the id of its result. -/
def Filed (store : EvidenceStore) : Prop :=
  ∀ (id : String) (receipt : EvaluationReceipt), store.claims[id]? = some (Claim.committed receipt) → receipt.evaluationId = id

/-- A sweep of `store` that has come past `front`. -/
structure Along (registry : EvidenceRegistry)
    (resolve : String → Except EvaluationError SourceEvidence) (now : Int) (store : EvidenceStore)
    (front : List String) (sources : Sources) (store' : EvidenceStore) : Prop where
  claims : store'.claims = store.claims
  approvals : store'.approvals = store.approvals
  tombstones : ∀ id ∉ front, store'.tombstones[id]? = store.tombstones[id]?
  content : ∀ id ∉ front, store'.contentOf id = store.contentOf id
  known : ∀ pair, Known registry now store front pair →
    ∃ found, verdict resolve store pair = some found ∧ sources[pair]? = some found
  unknown : ∀ pair, ¬ Known registry now store front pair → sources[pair]? = none
  retired : ∀ id ∈ front, ∀ receipt, store.claims[id]? = some (.committed receipt) →
    ((store'.tombstones[id]?).isSome ↔ (store.tombstones[id]?).isSome ∨
      Falls registry resolve now store (listedBefore front id) receipt)

theorem along_nil (store : EvidenceStore) :
    Along registry resolve now store [] ∅ store where
  claims := rfl
  approvals := rfl
  tombstones _ _ := rfl
  content _ _ := rfl
  known pair h := by
    obtain ⟨id, hid, -⟩ := h
    cases hid
  unknown pair _ := by simp
  retired id hid := by cases hid

theorem known_append {store : EvidenceStore} {id pair : String} :
    Known registry now store (front ++ [id]) pair ↔
      Known registry now store front pair ∨
        ∃ receipt, Lives now store id receipt ∧ pairOf registry receipt = pair ∧
          Asks registry store receipt := by
  simp only [Known, mem_append, mem_singleton]
  constructor
  · rintro ⟨other, hother | rfl, h⟩
    · exact .inl ⟨other, hother, h⟩
    · exact .inr h
  · rintro (⟨other, hother, h⟩ | h)
    · exact ⟨other, .inl hother, h⟩
    · exact ⟨id, .inr rfl, h⟩

theorem known_append_of_lives {store : EvidenceStore} {id pair : String}
    (hlives : Lives now store id receipt) :
    Known registry now store (front ++ [id]) pair ↔
      Known registry now store front pair ∨
        pairOf registry receipt = pair ∧ Asks registry store receipt := by
  rw [known_append]
  constructor
  · rintro (hknown | ⟨other, hother, hpair, hasks⟩)
    · exact .inl hknown
    · have hsame : other = receipt := by
        have hclaim := hother.1
        rw [hlives.1] at hclaim
        cases hclaim
        rfl
      subst hsame
      exact .inr ⟨hpair, hasks⟩
  · rintro (hknown | ⟨hpair, hasks⟩)
    · exact .inl hknown
    · exact .inr ⟨receipt, hlives, hpair, hasks⟩

theorem Along.past
    {sources sources' : Sources} {id : String}
    (h : Along registry resolve now store front sources store') (hid : id ∉ front)
    (helse : Elsewhere id store' store'')
    (hknown : ∀ pair, Known registry now store (front ++ [id]) pair →
      ∃ found, verdict resolve store pair = some found ∧ sources'[pair]? = some found)
    (hunknown : ∀ pair, ¬ Known registry now store (front ++ [id]) pair → sources'[pair]? = none)
    (hretired : ∀ receipt, store.claims[id]? = some (.committed receipt) →
      ((store''.tombstones[id]?).isSome ↔ (store.tombstones[id]?).isSome ∨
        Falls registry resolve now store front receipt)) :
    Along registry resolve now store (front ++ [id]) sources' store'' where
  claims := helse.claims.trans h.claims
  approvals := helse.approvals.trans h.approvals
  tombstones other hother := by
    rw [helse.tombstones other (by grind), h.tombstones other (by grind)]
  content other hother := by
    rw [helse.content other (by grind), h.content other (by grind)]
  known := hknown
  unknown := hunknown
  retired other hother receipt hclaim := by
    by_cases hsame : other = id
    · subst hsame
      rw [listedBefore_append_cons [] hid]
      exact hretired receipt hclaim
    · have hfront : other ∈ front := by grind
      rw [listedBefore_append_of_mem [id] hfront, helse.tombstones other hsame]
      exact h.retired other hfront receipt hclaim

/-- Past an id whose result is not asked about, whatever becomes of it. -/
theorem Along.past_settled
    {sources : Sources} {id : String}
    (h : Along registry resolve now store front sources store') (hid : id ∉ front)
    (helse : Elsewhere id store' store'') (hsettled : ∀ receipt, ¬ Lives now store id receipt)
    (hretired : ∀ receipt, store.claims[id]? = some (.committed receipt) →
      ((store''.tombstones[id]?).isSome ↔ (store.tombstones[id]?).isSome ∨
        Falls registry resolve now store front receipt)) :
    Along registry resolve now store (front ++ [id]) sources store'' := by
  have hsame : ∀ pair, Known registry now store (front ++ [id]) pair ↔
      Known registry now store front pair := by
    intro pair
    rw [known_append]
    constructor
    · rintro (hknown | ⟨receipt, hlives, -⟩)
      · exact hknown
      · exact absurd hlives (hsettled receipt)
    · exact .inl
  exact h.past hid helse (fun pair hknown => h.known pair ((hsame pair).1 hknown))
    (fun pair hunknown => h.unknown pair fun hknown => hunknown ((hsame pair).2 hknown)) hretired

theorem ended_spec (receipt : EvaluationReceipt) (found : Except EvidenceState (Option Int))
    (sources : Sources) (store : EvidenceStore) :
    ((ended receipt found sources).run store).1.2 = sources ∧
      Elsewhere receipt.evaluationId store ((ended receipt found sources).run store).2 ∧
      ((((ended receipt found sources).run store).2.tombstones[receipt.evaluationId]?).isSome ↔
        (store.tombstones[receipt.evaluationId]?).isSome ∨ (ends found).isSome) := by
  rw [ended]
  cases hends : ends found with
  | none => exact ⟨rfl, .refl _ _, by simp⟩
  | some state =>
    obtain ⟨helse, htomb⟩ := retire_spec receipt state store
    simp only [run_bind]
    exact ⟨rfl, helse, by simp only [run_pure, htomb, Option.isSome_some, or_true]⟩

theorem asks_congr {store store' : EvidenceStore}
    (h : store'.contentOf receipt.evaluationId = store.contentOf receipt.evaluationId) :
    Asks registry store' receipt ↔ Asks registry store receipt := by
  rw [Asks, Asks, h]

theorem Along.ended
    {sources asked sources' : Sources}
    {found : Except EvidenceState (Option Int)} {answer : Except EvaluationError Bool}
    (h : Along registry resolve now store front sources store')
    (hid : receipt.evaluationId ∉ front)
    (hlives : Lives now store receipt.evaluationId receipt)
    (hrun : (ended receipt found asked).run store' = ((answer, sources'), store''))
    (hknown : ∀ pair, Known registry now store front pair ∨
      pairOf registry receipt = pair ∧ Asks registry store receipt →
        ∃ found, verdict resolve store pair = some found ∧ asked[pair]? = some found)
    (hunknown : ∀ pair, ¬ Known registry now store front pair →
      ¬ (pairOf registry receipt = pair ∧ Asks registry store receipt) → asked[pair]? = none)
    (hfalls : Falls registry resolve now store front receipt ↔ (ends found).isSome) :
    Along registry resolve now store (front ++ [receipt.evaluationId]) sources' store'' := by
  obtain ⟨hsources, helse, hdone⟩ := ended_spec receipt found asked store'
  rw [hrun] at hsources helse hdone
  dsimp only at hsources helse hdone
  subst hsources
  refine h.past hid helse (fun pair hpair => hknown pair ((known_append_of_lives hlives).1 hpair))
    (fun pair hpair => ?_) fun other hother => ?_
  · rw [known_append_of_lives hlives, not_or] at hpair
    exact hunknown pair hpair.1 hpair.2
  · have hsame := hlives.1
    rw [hother] at hsame
    cases hsame
    rw [hdone, h.tombstones _ hid, hfalls]

/-- **One result** of a sweep falls as it should after those listed before. -/
theorem Along.sweepOne
    {sources sources' : Sources} {swept : Bool}
    (h : Along registry resolve now store front sources store')
    (hid : receipt.evaluationId ∉ front)
    (hclaim : store.claims[receipt.evaluationId]? = some (.committed receipt))
    (hrun : (sweepOne registry resolve receipt now sources).run store' =
      ((.ok swept, sources'), store'')) :
    Along registry resolve now store (front ++ [receipt.evaluationId]) sources' store'' := by
  have hthis : ∀ other, store.claims[receipt.evaluationId]? = some (.committed other) →
      other = receipt := by
    intro other hother
    rw [hclaim] at hother
    cases hother
    rfl
  have htomb := h.tombstones _ hid
  rw [Evaluations.sweepOne, run_bind, run_read, htomb] at hrun
  dsimp only at hrun
  cases hbefore : store.tombstones[receipt.evaluationId]? with
  | some state =>
    rw [hbefore] at hrun
    dsimp only at hrun
    obtain ⟨helse, herased⟩ := elsewhere_erase receipt.evaluationId store'
    rw [run_bind, run_pure] at hrun
    cases hrun
    refine h.past_settled hid helse (fun other hlives => ?_) fun other hother => ?_
    · rw [hlives.2.1] at hbefore
      cases hbefore
    · rw [herased, htomb, hbefore]
      simp
  | none =>
    rw [hbefore] at hrun
    dsimp only at hrun
    split at hrun
    · rename_i hpast
      obtain ⟨helse, hdone⟩ := retire_spec receipt .expired store'
      rw [run_bind, run_pure] at hrun
      cases hrun
      refine h.past_settled hid helse (fun other hlives => ?_) fun other hother => ?_
      · cases hthis other hlives.1
        exact absurd hlives.2.2 (by omega)
      · cases hthis other hother
        simp only [hdone, true_iff]
        exact .inr (.inl hpast)
    · rename_i hfuture
      have hlives : Lives now store receipt.evaluationId receipt :=
        ⟨hclaim, hbefore, by omega⟩
      have hasks : Asks registry store' receipt ↔ Asks registry store receipt :=
        asks_congr (h.content _ hid)
      have hverdict : verdict resolve store' (pairOf registry receipt) =
          verdict resolve store (pairOf registry receipt) := verdict_congr h.approvals _
      rw [run_bind] at hrun
      by_cases hknown : Known registry now store front (pairOf registry receipt)
      · -- the verdict is remembered
        obtain ⟨found, hfound, hheld⟩ := h.known _ hknown
        rw [verdictOf_of_known receipt sources store' hheld] at hrun
        refine h.ended hid hlives hrun (fun pair hpair => ?_) (fun pair hpair _ =>
          h.unknown pair hpair) (by simp [Falls, hfuture, hfound, hknown])
        rcases hpair with hpair | ⟨rfl, -⟩
        · exact h.known pair hpair
        · exact h.known _ hknown
      · have hnew := h.unknown _ hknown
        by_cases hreads : Asks registry store receipt
        · -- the first result of its pair
          cases hfound : verdict resolve store (pairOf registry receipt) with
          | none =>
            obtain ⟨error, hfailed⟩ : ∃ error,
                (verdictOf registry resolve receipt now sources).run store' =
                  ((.error error, sources), store') :=
              verdictOf_of_no_verdict receipt sources store' hnew (hasks.2 hreads)
                (hverdict.trans hfound)
            rw [hfailed, run_pure] at hrun
            cases hrun
          | some found =>
            rw [verdictOf_of_asks receipt sources store' hnew (hasks.2 hreads)
              (hverdict.trans hfound)] at hrun
            refine h.ended hid hlives hrun (fun pair hpair => ?_)
              (fun pair hpair hother => ?_)
              (by simp [Falls, hfuture, hfound, hknown, hreads])
            · rw [Table.getElem?_insert]
              split
              · rename_i hsame
                subst hsame
                exact ⟨found, hfound, rfl⟩
              · rename_i hother
                rcases hpair with hpair | ⟨hsame, -⟩
                · exact h.known pair hpair
                · exact absurd hsame hother
            · rw [Table.getElem?_insert, if_neg fun hsame => hother ⟨hsame, hreads⟩]
              exact h.unknown pair hpair
        · -- its header does not read
          obtain ⟨answer, hanswer, hends⟩ : ∃ answer,
              (verdictOf registry resolve receipt now sources).run store' =
                ((answer, sources), store') ∧ ∀ found, answer = .ok found → ends found = none :=
            verdictOf_of_not_asks receipt sources store' hnew fun hasks' =>
              hreads (hasks.1 hasks')
          rw [hanswer] at hrun
          cases answer with
          | error error =>
            rw [run_pure] at hrun
            cases hrun
          | ok found =>
            refine h.ended hid hlives hrun (fun pair hpair => ?_) (fun pair hpair _ =>
              h.unknown pair hpair)
              (by simp [Falls, hfuture, hknown, hreads, hends found rfl])
            rcases hpair with hpair | ⟨-, hasked⟩
            · exact h.known pair hpair
            · exact absurd hasked hreads

theorem Along.skip {store store' : EvidenceStore} {sources : Sources} {id : String}
    (h : Along registry resolve now store front sources store') (hid : id ∉ front)
    (hnone : ∀ receipt, store.claims[id]? ≠ some (.committed receipt)) :
    Along registry resolve now store (front ++ [id]) sources store' :=
  h.past_settled hid (.refl id store') (fun receipt hlives => hnone receipt hlives.1)
    fun receipt hclaim => absurd hclaim (hnone receipt)

/-- **The run**: a sweep that completes comes past everything listed. -/
theorem Along.sweepFrom {store : EvidenceStore} (hfiled : Filed store) {ids : List String} :
    ∀ {front : List String} {store' store'' : EvidenceStore} {sources : Sources}
      {retired swept : Nat}, (front ++ ids).Nodup →
      Along registry resolve now store front sources store' →
      (sweepFrom registry resolve now ids retired sources).run store' = (.ok swept, store'') →
      ∃ sources', Along registry resolve now store (front ++ ids) sources' store'' := by
  induction ids with
  | nil =>
    intro front store' store'' sources retired swept hnodup h hrun
    rw [Evaluations.sweepFrom, run_pure] at hrun
    cases hrun
    rw [append_nil]
    exact ⟨sources, h⟩
  | cons id ids ih =>
    intro front store' store'' sources retired swept hnodup h hrun
    have hid : id ∉ front := by grind
    have hnext : (front ++ [id] ++ ids).Nodup := by simpa using hnodup
    have hgoal : front ++ id :: ids = front ++ [id] ++ ids := by simp
    rw [hgoal]
    rw [Evaluations.sweepFrom, run_bind, run_read, h.claims] at hrun
    dsimp only at hrun
    split at hrun
    · rename_i receipt hclaim
      have hsame := hfiled id receipt hclaim
      subst hsame
      rw [run_bind] at hrun
      split at hrun
      · rw [run_pure] at hrun
        cases hrun
      · rename_i answer sources' hone
        exact ih hnext (h.sweepOne hid hclaim (Prod.ext hone rfl)) hrun
    · rename_i hnone
      exact ih hnext (h.skip hid fun receipt hclaim => hnone receipt hclaim) hrun

/-! ## What is noticed -/

/-- The pair is admitted. -/
def Admitted (store : EvidenceStore) (pair : String) : Prop :=
  ∀ approval, store.approvals[pair]? = some approval → approval.admits

/-- A result whose source is gone is noticed, after those listed in `front`: its pair is still
admitted, for the bundle that answers; its header reads, or another result of the pair has asked;
and where the source still answers, with its expiry, none has. -/
def Noticed (registry : EvidenceRegistry)
    (resolve : String → Except EvaluationError SourceEvidence) (now : Int) (store : EvidenceStore)
    (front : List String) (receipt : EvaluationReceipt) : Prop :=
  let pair := pairOf registry receipt
  Admitted store pair ∧
    (∀ error, resolve pair = .error error →
      Known registry now store front pair ∨ Asks registry store receipt) ∧
    ∀ source, resolve pair = .ok source →
      (∀ approval, store.approvals[pair]? = some approval → sameBundle approval source) ∧
        ¬ Known registry now store front pair ∧ Asks registry store receipt

section

variable {store : EvidenceStore} {pair : String}

theorem not_withdrawn_iff :
    ((store.approvals[pair]?).any fun approval => !approval.admits) = false ↔
      Admitted store pair := by
  rw [Admitted]
  cases store.approvals[pair]? <;> simp

theorem verdict_of_not_admitted (h : ¬ Admitted store pair) :
    verdict resolve store pair = some (.error .forbidden) := by
  rw [← not_withdrawn_iff, Bool.not_eq_false] at h
  rw [verdict, sourceOf, run_bind, run_read]
  dsimp only
  rw [if_pos h]
  rfl

theorem verdict_of_error (h : Admitted store pair) {error : EvaluationError}
    (hresolve : resolve pair = .error error) {found : Except EvidenceState (Option Int)} :
    verdict resolve store pair = some found ↔
      ∃ state, error = .unavailable state ∧ found = .error state := by
  rw [← not_withdrawn_iff] at h
  rw [verdict, sourceOf, run_bind, run_read]
  dsimp only
  rw [if_neg (by simp [h]), hresolve]
  dsimp only [run_pure]
  cases error <;> simp [eq_comm]

theorem verdict_of_ok (h : Admitted store pair) {source : SourceEvidence}
    (hresolve : resolve pair = .ok source)
    (hbundle : ∀ approval, store.approvals[pair]? = some approval → sameBundle approval source) :
    verdict resolve store pair = some (.ok source.expiresAt) := by
  rw [← not_withdrawn_iff] at h
  have hsame : ((store.approvals[pair]?).any fun approval => !sameBundle approval source) =
      false := by
    cases hfound : store.approvals[pair]? with
    | none => rfl
    | some approval => simp [hbundle approval hfound]
  rw [verdict, sourceOf, run_bind, run_read]
  dsimp only
  rw [if_neg (by simp [h]), hresolve]
  dsimp only
  rw [if_neg (by simp [hsame])]
  rfl

theorem verdict_of_other_bundle (h : Admitted store pair) {source : SourceEvidence}
    (hresolve : resolve pair = .ok source) {approval : Approval}
    (hfound : store.approvals[pair]? = some approval) (hother : ¬ sameBundle approval source) :
    verdict resolve store pair = some (.error .forbidden) := by
  rw [← not_withdrawn_iff] at h
  have hdiffers : ((store.approvals[pair]?).any fun approval => !sameBundle approval source) =
      true := by
    rw [hfound]
    simpa using hother
  rw [verdict, sourceOf, run_bind, run_read]
  dsimp only
  rw [if_neg (by simp [h]), hresolve]
  dsimp only
  rw [if_pos hdiffers]
  rfl

end

/-- A result with time left falls exactly if its source is gone and that is noticed. -/
theorem falls_iff {store : EvidenceStore} (hfuture : now < receipt.expiresAt) :
    Falls registry resolve now store front receipt ↔
      Gone now (resolve (pairOf registry receipt)) ∧
        Noticed registry resolve now store front receipt := by
  have hnot : ¬ receipt.expiresAt ≤ now := by omega
  rw [Falls, Noticed]
  by_cases hadmitted : Admitted store (pairOf registry receipt)
  · cases hresolve : resolve (pairOf registry receipt) with
    | error error =>
      simp only [verdict_of_error hadmitted hresolve]
      cases error with
      | unavailable state =>
        cases state
        all_goals simp [hnot, hadmitted, Gone, ends, heldTo]
        all_goals tauto
      | _ => simp [hnot, Gone]
    | ok source =>
      by_cases hbundle : ∀ approval, store.approvals[pairOf registry receipt]? = some approval →
          sameBundle approval source
      · rw [verdict_of_ok hadmitted hresolve hbundle]
        cases hpast : source.expiresAt.any (· ≤ now)
        · simp [hnot, Gone, ends, heldTo, hpast]
        · simp [hnot, hadmitted, Gone, ends, heldTo, hpast]
          grind
      · have hother := hbundle
        push Not at hother
        obtain ⟨approval, hfound, hother⟩ := hother
        rw [verdict_of_other_bundle hadmitted hresolve hfound hother]
        simp [hnot, ends, heldTo]
        grind
  · rw [verdict_of_not_admitted hadmitted]
    simp [hnot, hadmitted, ends, heldTo]

/-- **A sweep that completes retires what is due, and nothing else**, exactly if every result whose
source is gone is noticed. -/
theorem swept_iff {store : EvidenceStore} (hfiled : Filed store)
    {listed : List String → List String}
    (hlisted : (listed store.claims.keys).Perm store.claims.keys) {swept : Nat}
    {store' : EvidenceStore}
    (hsweep : (sweep registry resolve listed now).run store = (.ok swept, store')) :
    (∀ (id : String) (receipt : EvaluationReceipt),
      store.claims[id]? = some (Claim.committed receipt) →
      ((store'.tombstones[id]?).isSome ↔
        (store.tombstones[id]?).isSome ∨ Due registry resolve now receipt)) ↔
    ∀ id receipt, Lives now store id receipt → Gone now (resolve (pairOf registry receipt)) →
      Noticed registry resolve now store (listedBefore (listed store.claims.keys) id) receipt := by
  have hnodup : (listed store.claims.keys).Nodup :=
    hlisted.nodup_iff.2 Std.ExtTreeMap.nodup_keys
  rw [sweep, run_bind, run_read] at hsweep
  dsimp only at hsweep
  obtain ⟨sources, halong⟩ : ∃ sources,
      Along registry resolve now store ([] ++ listed store.claims.keys) sources store' :=
    Along.sweepFrom hfiled (by simpa using hnodup) (along_nil store) hsweep
  rw [List.nil_append] at halong
  have hmem : ∀ (id : String) (receipt : EvaluationReceipt),
      store.claims[id]? = some (Claim.committed receipt) → id ∈ listed store.claims.keys := by
    intro id receipt hclaim
    rw [hlisted.mem_iff, Std.ExtTreeMap.mem_keys, Std.ExtTreeMap.mem_iff_isSome_getElem?, hclaim]
    rfl
  constructor
  · intro hall id receipt hlives hgone
    have htomb := (hall id receipt hlives.1).2 (.inr (.inr hgone))
    rw [halong.retired id (hmem id receipt hlives.1) receipt hlives.1, hlives.2.1] at htomb
    rcases htomb with hbefore | hfalls
    · cases hbefore
    · exact ((falls_iff hlives.2.2).1 hfalls).2
  · intro hnoticed id receipt hclaim
    rw [halong.retired id (hmem id receipt hclaim) receipt hclaim]
    by_cases hbefore : (store.tombstones[id]?).isSome
    · simp [hbefore]
    · by_cases hpast : receipt.expiresAt ≤ now
      · simp [Falls, Due, hpast]
      · have hlives : Lives now store id receipt :=
          ⟨hclaim, by simpa using hbefore, by omega⟩
        rw [falls_iff hlives.2.2, Due]
        have hone := hnoticed id receipt hlives
        tauto

/-! ## Two results of one pair -/

def surveyed : EvaluationManifest where
  code := ⟨"code", "git://surveyed", "c3", some 2, "text/plain", .blob, none⟩
  context :=
    { dataset := ⟨.curation, "questions", "3"⟩
      caseManifest := ⟨"cases", "blob://cases", "c0", some 2, "application/json", .blob, none⟩
      caseCount := 2
      split := "test"
      suite := ⟨"suite", "1"⟩
      scorer := ⟨"exact", "1"⟩
      inputSchema := ⟨"input", "blob://input", "c1", some 2, "application/json", .blob, none⟩
      expectationsSchema :=
        ⟨"answers", "blob://answers", "c2", some 2, "application/json", .blob, none⟩
      judge := none
      externalCalibration := none
      metrics := [] }

/-- A header is written as the id of its result. -/
def survey : EvidenceRegistry where
  contentAccess := false
  hash bytes := bytes
  parse bytes := some ⟨⟨bytes, surveyed⟩, [], .null⟩
  cipher := none
  prepare _ := .ok ("variant", "context")
  approvalId variantId contextId := variantId ++ contextId

def surveyedAt (id : String) : EvaluationReceipt := ⟨id, id, "variant", "context", 1, 100⟩

/-- Two results of the one pair, with time left. -/
def twins : EvidenceStore :=
  { EvidenceStore.new with
    claims := ((∅ : BTreeMap String Claim).insert "first" (.committed (surveyedAt "first"))).insert
      "second" (.committed (surveyedAt "second"))
    content := ((∅ : BTreeMap String (BTreeMap String Stored)).insert "first"
      ((∅ : BTreeMap String Stored).insert "first" ⟨"first", false⟩)).insert "second"
        ((∅ : BTreeMap String Stored).insert "second" ⟨"second", false⟩) }

/-- The source's deadline was brought forward. -/
def sooner (_ : String) : Except EvaluationError SourceEvidence := .ok ⟨none, none, some 5⟩

def sweptTwins : Except EvaluationError Nat × EvidenceStore :=
  (sweep survey sooner id 10).run twins

theorem sweptTwins_completes : sweptTwins.1 = .ok 1 := by decide +kernel

theorem filed_twins : Filed twins := by
  intro id receipt h
  rw [twins, Table.getElem?_insert, Table.getElem?_insert] at h
  split at h
  · rename_i hid
    cases h
    exact hid
  · split at h
    · rename_i hid
      cases h
      exact hid
    · simp at h

theorem swept_iff_twins :
    (∀ (id : String) (receipt : EvaluationReceipt),
      twins.claims[id]? = some (Claim.committed receipt) →
      ((sweptTwins.2.tombstones[id]?).isSome ↔
        (twins.tombstones[id]?).isSome ∨ Due survey sooner 10 receipt)) ↔
    ∀ id receipt, Lives 10 twins id receipt → Gone 10 (sooner (pairOf survey receipt)) →
      Noticed survey sooner 10 twins (listedBefore twins.claims.keys id) receipt :=
  swept_iff filed_twins (List.Perm.refl (id twins.claims.keys))
    (Prod.ext sweptTwins_completes rfl)

/-- The second result of the pair is left, though its source's deadline has passed. -/
theorem second_left : ¬ ∀ (registry : EvidenceRegistry)
    (resolve : String → Except EvaluationError SourceEvidence) (now : Int) (store : EvidenceStore)
    (listed : List String → List String) (swept : Nat) (store' : EvidenceStore), Filed store →
    (listed store.claims.keys).Perm store.claims.keys →
    (sweep registry resolve listed now).run store = (.ok swept, store') →
    ∀ (id : String) (receipt : EvaluationReceipt),
      store.claims[id]? = some (Claim.committed receipt) →
      ((store'.tombstones[id]?).isSome ↔
        (store.tombstones[id]?).isSome ∨ Due registry resolve now receipt) := by
  intro hall
  have hleft : sweptTwins.2.tombstones["second"]? = none := by decide +kernel
  have hdue := (hall survey sooner 10 twins id 1 sweptTwins.2 filed_twins (.refl _)
    (Prod.ext sweptTwins_completes rfl) "second" (surveyedAt "second")
    (by decide +kernel)).2 (.inr (.inr rfl))
  rw [hleft] at hdue
  cases hdue

end Aiwatcher.Evaluations
