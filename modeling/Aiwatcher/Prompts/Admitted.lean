import Aiwatcher.Library.Machine
import Aiwatcher.Prompts.Registry

/-!
# Aiwatcher.Prompts.Admitted

What a deployment reads of a prompt, and whether the verdict that counts admitted it: what each
write of the registry makes of the one and the other.
-/

namespace Aiwatcher.Prompts

open Library Prog Option Table List Std

variable {config : RegistryConfig} {registrar : Registrar} {name : String}
  {objects objects' : PromptObjects}

/-! ## What is vouched for -/

/-- The record a candidate's origin names is there, is about it and admitted it. -/
def Vouched (objects : PromptObjects) (version : PromptVersion) : Prop :=
  match version.origin with
  | .authored => True
  | .optimized optimizationId _ =>
    (objects.optimizations[optimizationId]?).any fun record =>
      record.candidate = version.versionId ∧ record.outcome = .admitted

instance (objects : PromptObjects) (version : PromptVersion) :
    Decidable (Vouched objects version) :=
  match h : version.origin with
  | .authored => isTrue (by rw [Vouched, h]; trivial)
  | .optimized optimizationId _ =>
    decidable_of_iff ((objects.optimizations[optimizationId]?).any fun record =>
      record.candidate = version.versionId ∧ record.outcome = .admitted) (by rw [Vouched, h])

/-- The objects of a prompt between two writes: labels and the index name stored versions, and
what a deployment reads is vouched for. -/
structure Sound (objects : PromptObjects) : Prop where
  keyed : ∀ (id : String) version, objects.versions[id]? = some version → version.versionId = id
  labelled : ∀ head ∈ objects.head, ∀ (label : String) id, head.labels[label]? = some id →
    id ∈ objects.versions
  indexed : ∀ head ∈ objects.head, ∀ summary ∈ head.versions,
    summary.versionId ∈ objects.versions
  vouched : ∀ head ∈ objects.head, ∀ id ∈ head.current, ∀ version,
    objects.versions[id]? = some version → Vouched objects version

theorem sound_new : Sound {} where
  keyed := by simp
  labelled := by simp
  indexed := by simp
  vouched := by simp

variable {head : PromptHead} {version : PromptVersion}

section

variable (h : Sound objects)

include h

/-- What a deployment reads is a version that is stored. -/
theorem Sound.current_mem (hhead : objects.head = some head) {id : String}
    (hid : head.current = some id) : id ∈ objects.versions := by
  rw [PromptHead.current, or_eq_some_iff] at hid
  rcases hid with hlabel | ⟨-, hfirst⟩
  · exact h.labelled head hhead PRODUCTION_LABEL id hlabel
  · obtain ⟨summary, hsummary, rfl⟩ := map_eq_some_iff.mp hfirst
    exact h.indexed head hhead summary (mem_of_mem_head? hsummary)

/-! ## Writes -/

theorem Sound.putVersion (hnew : objects.versions[version.versionId]? = none) :
    Sound (objects.putVersion version) := by
  have hmem : ∀ id, id ∈ objects.versions → id ∈ (objects.putVersion version).versions :=
    fun _ hid => ExtTreeMap.mem_insert.mpr (.inr hid)
  refine ⟨forall_insert rfl h.keyed, fun head hhead label id hlabel =>
    hmem id (h.labelled head hhead label id hlabel), fun head hhead summary hsummary =>
      hmem _ (h.indexed head hhead summary hsummary), fun head hhead id hid other hother => ?_⟩
  obtain ⟨rfl, -⟩ | ⟨-, hother⟩ := of_insert hother
  · have hstored := h.current_mem hhead hid
    rw [ExtTreeMap.mem_iff_isSome_getElem?, hnew] at hstored
    cases hstored
  · exact h.vouched head hhead id hid other hother

/-- **A record** that is written leaves what is read vouched for, unless that names it. -/
theorem Sound.putOptimization {record : OptimizationRecord}
    (hrecord : ∀ head ∈ objects.head, ∀ id ∈ head.current, ∀ version,
      objects.versions[id]? = some version → ∀ algorithm,
        version.origin = .optimized record.optimizationId algorithm →
          record.candidate = version.versionId ∧ record.outcome = .admitted) :
    Sound (objects.putOptimization record) := by
  refine ⟨h.keyed, h.labelled, h.indexed, fun head hhead id hid version hversion => ?_⟩
  have hbefore := h.vouched head hhead id hid version hversion
  unfold Vouched at hbefore ⊢
  cases horigin : version.origin with
  | authored => trivial
  | optimized optimizationId algorithm =>
    simp only [horigin] at hbefore ⊢
    rw [PromptObjects.putOptimization, Table.getElem?_insert]
    split
    · rename_i heq
      subst heq
      simpa using hrecord head hhead id hid version hversion algorithm horigin
    · exact hbefore

theorem Sound.putHead
    (hlabels : ∀ (label : String) id, head.labels[label]? = some id → id ∈ objects.versions)
    (hindex : ∀ summary ∈ head.versions, summary.versionId ∈ objects.versions)
    (hcurrent : ∀ id ∈ head.current, ∀ version, objects.versions[id]? = some version →
      Vouched objects version) : Sound (objects.putHead head) := by
  refine ⟨h.keyed, ?_, ?_, ?_⟩
  · rintro _ ⟨⟩
    exact hlabels
  · rintro _ ⟨⟩
    exact hindex
  · rintro _ ⟨⟩
    exact hcurrent

end

/-! ## Storing a version -/

namespace PromptObjects

/-- The version under a text's id, once it is stored. -/
def stored (objects : PromptObjects) (version : PromptVersion) : PromptVersion :=
  objects.versions[version.versionId]?.getD version

def withVersion (objects : PromptObjects) (version : PromptVersion) : PromptObjects :=
  if (objects.versions[version.versionId]?).isSome then objects else objects.putVersion version

@[simp] theorem head_withVersion (version : PromptVersion) :
    (objects.withVersion version).head = objects.head := by
  unfold withVersion
  split <;> rfl

@[simp] theorem optimizations_withVersion (version : PromptVersion) :
    (objects.withVersion version).optimizations = objects.optimizations := by
  unfold withVersion
  split <;> rfl

end PromptObjects

theorem Vouched.congr (h : Vouched objects version)
    (hsame : objects'.optimizations = objects.optimizations) : Vouched objects' version := by
  unfold Vouched at h ⊢
  rwa [hsame]

theorem run_storeVersion (version : PromptVersion) : (storeVersion version).run objects =
    ((objects.stored version, (objects.versions[version.versionId]?).isNone),
      objects.withVersion version) := by
  simp only [storeVersion, readVersion, run_bind, run_read, PromptObjects.stored,
    PromptObjects.withVersion]
  cases objects.versions[version.versionId]? <;> rfl

theorem front_storeVersion (objects : PromptObjects) (version : PromptVersion) (n : Nat) :
    (storeVersion version).front n objects = objects ∨
      (storeVersion version).front n objects = objects.withVersion version := by
  rcases Nat.lt_or_ge n ((storeVersion version).accesses objects) with hn | hn
  · refine .inl ?_
    revert hn
    simp only [storeVersion, readVersion, accesses_bind, accesses_read, run_read]
    rw [(looks_read _).front_bind]
    simp only [run_read, accesses_read]
    cases objects.versions[version.versionId]? with
    | some existing => exact fun _ => front_pure _ _ _
    | none =>
      intro hn
      have hzero : n - 1 = 0 := by
        simp only [accesses_bind, accesses_write, run_write, accesses_pure] at hn
        omega
      rw [hzero, front_zero]
  · refine .inr ?_
    rw [front_of_accesses_le hn, run_storeVersion]

theorem Sound.withVersion (h : Sound objects) (version : PromptVersion) :
    Sound (objects.withVersion version) := by
  unfold PromptObjects.withVersion
  split
  · exact h
  · rename_i hnone
    exact h.putVersion (not_isSome_iff_eq_none.mp hnone)

theorem Sound.stored (h : Sound objects) (version : PromptVersion) :
    (objects.withVersion version).versions[(objects.stored version).versionId]? =
      some (objects.stored version) := by
  unfold PromptObjects.withVersion PromptObjects.stored
  cases hstored : objects.versions[version.versionId]? with
  | some existing =>
    rw [getD_some, h.keyed _ existing hstored]
    exact hstored
  | none => exact (Table.getElem?_insert _ _ _ _).trans (if_pos rfl)

/-! ## Indexing it -/

/-- No label says what is live. -/
def Unlabelled (objects : PromptObjects) : Prop :=
  objects.head.bind (·.labels[PRODUCTION_LABEL]?) = none

instance (objects : PromptObjects) : Decidable (Unlabelled objects) :=
  inferInstanceAs (Decidable (_ = none))

/-- A version that is indexed, and maybe labelled, is what is read from then on. -/
def TakesOver (config : RegistryConfig) (objects : PromptObjects) (label : Option String) : Prop :=
  label = some PRODUCTION_LABEL ∨ Unlabelled objects ∧ 0 < config.maxVersionsIndexed

instance (config : RegistryConfig) (objects : PromptObjects) (label : Option String) :
    Decidable (TakesOver config objects label) :=
  inferInstanceAs (Decidable (_ ∨ _ ∧ _))

/-- **A version is indexed**: what is read afterwards is that, or what was read before. -/
theorem Sound.putIndexed (config : RegistryConfig) (name : String) (h : Sound objects)
    (hversion : objects.versions[version.versionId]? = some version) (label : Option String)
    (now : OffsetDateTime) (hvouched : TakesOver config objects label → Vouched objects version)
    (hlabels : head.labels =
      ((objects.head.getD (.opening name now)).pointed label version.versionId).labels)
    (hversions : head.versions = (version.summary ::
      (objects.head.getD (.opening name now)).versions.filter
        (·.versionId ≠ version.versionId)).take config.maxVersionsIndexed) :
    Sound (objects.putHead head) := by
  have hmem : version.versionId ∈ objects.versions :=
    Table.mem_of_getElem? hversion
  have hheld : ∀ (label : String) id,
      (objects.head.getD (.opening name now)).labels[label]? = some id →
        ∃ held ∈ objects.head, held.labels[label]? = some id := by
    intro label id hlabel
    cases hhead : objects.head with
    | none => simp [hhead, PromptHead.opening] at hlabel
    | some held =>
      rw [hhead, getD_some] at hlabel
      exact ⟨held, rfl, hlabel⟩
  have hpointed : ∀ (other : String) id, head.labels[other]? = some id →
      label = some other ∧ id = version.versionId ∨
        label ≠ some other ∧ ∃ held ∈ objects.head, held.labels[other]? = some id := by
    intro other id hid
    rw [hlabels, PromptHead.pointed] at hid
    cases label with
    | none => exact .inr ⟨nofun, hheld other id hid⟩
    | some label =>
      simp only [elim_some, Table.getElem?_insert] at hid
      split at hid
      · rename_i heq
        cases hid
        exact .inl ⟨by rw [heq], rfl⟩
      · rename_i hne
        exact .inr ⟨fun heq => hne (some.inj heq), hheld other id hid⟩
  refine h.putHead (fun other id hid => ?_) (fun summary hsummary => ?_) fun id hid other hother => ?_
  · rcases hpointed other id hid with ⟨-, rfl⟩ | ⟨-, held, hhead, hlabel⟩
    · exact hmem
    · exact h.labelled held hhead other id hlabel
  · rw [hversions] at hsummary
    rcases mem_cons.mp (mem_of_mem_take hsummary) with rfl | hrest
    · exact hmem
    · cases hhead : objects.head with
      | none => simp [hhead, PromptHead.opening] at hrest
      | some held =>
        rw [hhead, getD_some] at hrest
        exact h.indexed held hhead summary (mem_filter.mp hrest).1
  · rcases or_eq_some_iff.mp hid with hlabel | ⟨hnone, hfirst⟩
    · rcases hpointed _ id hlabel with ⟨hmoved, rfl⟩ | ⟨-, held, hhead, hlabel⟩
      · rw [hversion] at hother
        cases hother
        exact hvouched (.inl hmoved)
      · refine h.vouched held hhead id ?_ other hother
        rw [PromptHead.current, hlabel]
        rfl
    · obtain ⟨summary, hsummary, rfl⟩ := map_eq_some_iff.mp hfirst
      rw [hversions] at hsummary
      cases hmax : config.maxVersionsIndexed with
      | zero => simp [hmax] at hsummary
      | succ max =>
        rw [hmax, take_succ_cons, head?_cons, some.injEq] at hsummary
        subst hsummary
        rw [PromptVersion.summary, hversion] at hother
        cases hother
        refine hvouched (.inr ⟨?_, by omega⟩)
        rw [hlabels, PromptHead.pointed] at hnone
        cases hhead : objects.head with
        | none => simp [Unlabelled, hhead]
        | some held =>
          rw [hhead, getD_some] at hnone
          rw [Unlabelled, hhead, bind_some]
          cases label with
          | none => exact hnone
          | some label =>
            simp only [elim_some, Table.getElem?_insert] at hnone
            split at hnone
            · cases hnone
            · exact hnone

theorem Sound.putPointed (h : Sound objects) {held : PromptHead} (hheld : objects.head = some held)
    {id : String} (hversion : objects.versions[id]? = some version) (label : String)
    (hvouched : label = PRODUCTION_LABEL → Vouched objects version)
    (hlabels : head.labels = held.labels.insert label id)
    (hversions : head.versions = held.versions) : Sound (objects.putHead head) := by
  have hmem : id ∈ objects.versions := Table.mem_of_getElem? hversion
  refine h.putHead ?_ ?_ fun target htarget other hother => ?_
  · rw [hlabels]
    exact forall_insert hmem (h.labelled held hheld)
  · rw [hversions]
    exact h.indexed held hheld
  · rw [PromptHead.current, hlabels, hversions, Table.getElem?_insert] at htarget
    split at htarget
    · rename_i heq
      rw [some_or, mem_some_iff] at htarget
      rw [← htarget, hversion] at hother
      cases hother
      exact hvouched heq
    · exact h.vouched held hheld target htarget other hother

end Aiwatcher.Prompts
