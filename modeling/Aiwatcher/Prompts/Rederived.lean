import Aiwatcher.Library.Shelf
import Aiwatcher.Prompts.Production

/-!
# Aiwatcher.Prompts.Rederived

The head as an index of what is stored: when putting entries at its front and sorting the stored
objects come to the same.
-/

namespace Aiwatcher.Prompts

open Library Prog List Option Table Std PromptObjects

variable {config : RegistryConfig} {registrar : Registrar} {name : String}
  {objects objects' : PromptObjects}

namespace PromptObjects

/-- The versions the head lists. -/
def index (objects : PromptObjects) : List PromptVersionSummary :=
  objects.head.elim [] (·.versions)

/-- The optimisations the head lists. -/
def optimizationIndex (objects : PromptObjects) : List OptimizationSummary :=
  objects.head.elim [] (·.optimizations)

/-- When each listed version was created, and each stored one. -/
def indexDates (objects : PromptObjects) : List (String × OffsetDateTime) :=
  objects.index.map fun summary => (summary.versionId, summary.createdAt)

def versionDates (objects : PromptObjects) : List (String × OffsetDateTime) :=
  (BTreeMap.values objects.versions).map fun version => (version.versionId, version.createdAt)

/-- When each listed optimisation was started, and each stored one. -/
def optimizationIndexDates (objects : PromptObjects) : List (String × OffsetDateTime) :=
  objects.optimizationIndex.map fun summary => (summary.optimizationId, summary.startedAt)

def optimizationDates (objects : PromptObjects) : List (String × OffsetDateTime) :=
  (BTreeMap.values objects.optimizations).map fun record =>
    (record.optimizationId, record.startedAt)

end PromptObjects

/-! ## The index -/

/-- The head lists versions as it should, the newest first where that is what is read. -/
def VersionsIndexed (config : RegistryConfig) (objects : PromptObjects) : Prop :=
  ∃ shelf, objects.index = shelf.map (·.summary) ∧
    Shelf (·.versionId) (·.createdAt) config.maxVersionsIndexed objects.versions shelf ∧
    (Unlabelled objects → ∀ first ∈ shelf.head?, ∀ (id : String) other,
      objects.versions[id]? = some other → other ≠ first → other.createdAt < first.createdAt)

def OptimizationsIndexed (config : RegistryConfig) (registrar : Registrar)
    (objects : PromptObjects) : Prop :=
  ∃ shelf, objects.optimizationIndex = shelf.map (·.summary registrar) ∧
    Shelf (·.optimizationId) (·.startedAt) config.maxOptimizationsIndexed objects.optimizations
      shelf

theorem VersionsIndexed.put (h : VersionsIndexed config objects) {version : PromptVersion}
    (hversions : objects'.versions = objects.versions.insert version.versionId version)
    (hindex : objects'.index = (version.summary :: objects.index.filter
      (·.versionId ≠ version.versionId)).take config.maxVersionsIndexed)
    (hyields : Yields config.maxVersionsIndexed objects.indexDates objects.versionDates
      (version.versionId, version.createdAt))
    (hfront : Unlabelled objects' → 0 < config.maxVersionsIndexed →
      ∀ date ∈ objects.versionDates, date.1 ≠ version.versionId → date.2 < version.createdAt) :
    VersionsIndexed config objects' := by
  obtain ⟨shelf, hlisted, hshelf, -⟩ := h
  have hdates : ∀ (id : String) other, objects.versions[id]? = some other →
      (other.versionId, other.createdAt) ∈ objects.versionDates :=
    fun id other hother => mem_map.mpr ⟨other, BTreeMap.mem_values.mpr ⟨id, hother⟩, rfl⟩
  rw [indexDates, hlisted, List.map_map] at hyields
  refine ⟨_, ?_, hversions ▸ hshelf.put version (fun other => hdates _ other) hyields,
    fun hun first hfirst id other hother hne => ?_⟩
  · rw [hindex, hlisted, map_take, map_cons, List.filter_map]
    rfl
  · rw [head?_take] at hfirst
    split at hfirst
    · cases hfirst
    · rename_i hcap
      cases hfirst
      rw [hversions] at hother
      obtain ⟨-, rfl⟩ | ⟨hid, hother⟩ := of_insert hother
      · exact absurd rfl hne
      · refine hfront hun (Nat.pos_of_ne_zero hcap) _ (hdates id other hother) ?_
        rw [hshelf.keyed id other hother]
        exact Ne.symm hid

variable {version : PromptVersion}

/-- **A version that is not listed** is older than all the versions of a full list. -/
theorem VersionsIndexed.pass (h : VersionsIndexed config objects)
    (hnew : objects.versions[version.versionId]? = none)
    (hversions : objects'.versions = objects.versions.insert version.versionId version)
    (hhead : objects'.head = objects.head)
    (hfull : objects.index.length = config.maxVersionsIndexed)
    (holder : ∀ summary ∈ objects.index, version.createdAt < summary.createdAt) :
    VersionsIndexed config objects' := by
  obtain ⟨shelf, hlisted, hshelf, hnewest⟩ := h
  have hkept : ∀ kept ∈ shelf, version.createdAt < kept.createdAt := fun kept hmem =>
    holder kept.summary (hlisted ▸ mem_map_of_mem hmem)
  rw [hlisted, length_map] at hfull
  refine ⟨shelf, ?_, hversions ▸ hshelf.pass hnew hfull hkept,
    fun hun first hfirst id other hother hne => ?_⟩
  · rw [index, hhead]
    exact hlisted
  · rw [hversions] at hother
    obtain ⟨-, rfl⟩ | ⟨-, hother⟩ := of_insert hother
    · exact hkept first (mem_of_mem_head? hfirst)
    · rw [Unlabelled, hhead] at hun
      exact hnewest hun first hfirst id other hother hne

theorem VersionsIndexed.congr (h : VersionsIndexed config objects)
    (hversions : objects'.versions = objects.versions) (hindex : objects'.index = objects.index)
    (hun : Unlabelled objects' → Unlabelled objects) : VersionsIndexed config objects' := by
  obtain ⟨shelf, hlisted, hshelf, hnewest⟩ := h
  refine ⟨shelf, hindex.trans hlisted, hversions ▸ hshelf, fun hun' => ?_⟩
  rw [hversions]
  exact hnewest (hun hun')

theorem OptimizationsIndexed.put (h : OptimizationsIndexed config registrar objects)
    (record : OptimizationRecord)
    (hrecords : objects'.optimizations =
      objects.optimizations.insert record.optimizationId record)
    (hindex : objects'.optimizationIndex = (record.summary registrar ::
      objects.optimizationIndex.filter (·.optimizationId ≠ record.optimizationId)).take
        config.maxOptimizationsIndexed)
    (hyields : Yields config.maxOptimizationsIndexed objects.optimizationIndexDates
      objects.optimizationDates (record.optimizationId, record.startedAt)) :
    OptimizationsIndexed config registrar objects' := by
  obtain ⟨shelf, hlisted, hshelf⟩ := h
  have hdates : ∀ other : OptimizationRecord,
      objects.optimizations[other.optimizationId]? = some other →
      (other.optimizationId, other.startedAt) ∈ objects.optimizationDates :=
    fun other hother => mem_map.mpr ⟨other, BTreeMap.mem_values.mpr ⟨_, hother⟩, rfl⟩
  rw [optimizationIndexDates, hlisted, List.map_map] at hyields
  refine ⟨_, ?_, hrecords ▸ hshelf.put record hdates hyields⟩
  rw [hindex, hlisted, map_take, map_cons, List.filter_map]
  rfl

theorem OptimizationsIndexed.congr (h : OptimizationsIndexed config registrar objects)
    (hrecords : objects'.optimizations = objects.optimizations)
    (hindex : objects'.optimizationIndex = objects.optimizationIndex) :
    OptimizationsIndexed config registrar objects' := by
  obtain ⟨shelf, hlisted, hshelf⟩ := h
  exact ⟨shelf, hindex.trans hlisted, hrecords ▸ hshelf⟩

/-- The head is the index of what is stored. -/
structure Indexed (config : RegistryConfig) (registrar : Registrar) (objects : PromptObjects) :
    Prop where
  labelled : ∀ head ∈ objects.head, ∀ (label : String) id, head.labels[label]? = some id →
    id ∈ objects.versions
  versions : VersionsIndexed config objects
  optimizations : OptimizationsIndexed config registrar objects

theorem Indexed.keyed (h : Indexed config registrar objects) (id : String)
    (version : PromptVersion) (hversion : objects.versions[id]? = some version) :
    version.versionId = id := by
  obtain ⟨shelf, -, hshelf, -⟩ := h.versions
  exact hshelf.keyed id version hversion

theorem indexed_new : Indexed config registrar {} where
  labelled := by simp
  versions := ⟨[], rfl, ⟨by simp, by simp, by simp, by simp, by simp⟩, by simp⟩
  optimizations := ⟨[], rfl, ⟨by simp, by simp, by simp, by simp, by simp⟩⟩

/-! ## Rebuilding -/

/-- **A rebuild changes nothing that is read**, and lists the same. -/
def Rederives (config : RegistryConfig) (registrar : Registrar) (name : String)
    (objects : PromptObjects) : Prop :=
  ∀ arrival now,
    (∀ label, ((resolve name label).run
        ((rebuild config registrar name arrival now).run objects).2).1 =
      ((resolve name label).run objects).1) ∧
    (((rebuild config registrar name arrival now).run objects).2.index).Perm objects.index ∧
    (((rebuild config registrar name arrival now).run objects).2.optimizationIndex).Perm
      objects.optimizationIndex

theorem map_key_listed {β : Type} {key : β → String}
    {objectsOf : PromptObjects → BTreeMap String β}
    (hkeyed : ∀ (id : String) row, (objectsOf objects)[id]? = some row → key row = id)
    (arrival : Arrival) :
    ((listed objectsOf arrival objects).map key).Perm (objectsOf objects).keys := by
  have hmap : (listed objectsOf arrival objects).map key =
      arrival.order (objectsOf objects).keys := by
    rw [listed, map_filterMap]
    refine (filterMap_congr fun id hid => ?_).trans filterMap_some
    rw [(arrival.perm _).mem_iff, ExtTreeMap.mem_keys, ExtTreeMap.mem_iff_isSome_getElem?] at hid
    obtain ⟨row, hrow⟩ := isSome_iff_exists.mp hid
    rw [hrow, map_some, hkeyed id row hrow]
  rw [hmap]
  exact arrival.perm _

theorem listed_stored {β : Type} {key : β → String}
    {objectsOf : PromptObjects → BTreeMap String β}
    (hkeyed : ∀ (id : String) row, (objectsOf objects)[id]? = some row → key row = id)
    {arrival : Arrival} {row : β} (hrow : row ∈ listed objectsOf arrival objects) :
    (objectsOf objects)[key row]? = some row := by
  obtain ⟨id, hid⟩ := mem_listed_iff.mp hrow
  rwa [hkeyed id row hid]

section

variable (h : Indexed config registrar objects) (arrival : Arrival) (now : OffsetDateTime)

/-- The objects of a prompt behind a rebuild that finds any. -/
def PromptObjects.rederived (config : RegistryConfig) (registrar : Registrar) (name : String)
    (objects : PromptObjects) (arrival : Arrival) (now : OffsetDateTime) : PromptObjects :=
  objects.putHead (rebuilt config registrar name (listed (·.versions) arrival objects)
    (listed (·.optimizations) arrival objects) objects.head now)

include h in
theorem Indexed.versions_rederived (name : String) : ∃ shelf shelf' : List PromptVersion,
    objects.index = shelf.map (·.summary) ∧
    (objects.rederived config registrar name arrival now).index = shelf'.map (·.summary) ∧
    shelf'.Perm shelf ∧ (Unlabelled objects → shelf'.head? = shelf.head?) ∧
    Shelf (·.versionId) (·.createdAt) config.maxVersionsIndexed objects.versions shelf' ∧
    (Unlabelled objects → ∀ first ∈ shelf'.head?, ∀ (id : String) other,
      objects.versions[id]? = some other → other ≠ first → other.createdAt < first.createdAt) := by
  obtain ⟨shelf, hlisted, hshelf, hnewest⟩ := h.versions
  have hperm : (((listed (·.versions) arrival objects).mergeSort fun a b =>
      b.createdAt ≤ a.createdAt).take config.maxVersionsIndexed).Perm shelf :=
    hshelf.sorted_perm (map_key_listed hshelf.keyed arrival)
      (fun row => listed_stored hshelf.keyed) (by simp)
  suffices hhead : Unlabelled objects → (((listed (·.versions) arrival objects).mergeSort
      fun a b => b.createdAt ≤ a.createdAt).take config.maxVersionsIndexed).head? = shelf.head? from
    ⟨shelf, _, hlisted, rfl, hperm, hhead, hshelf.perm hperm, fun hun first hfirst =>
      hnewest hun first (hhead hun ▸ hfirst)⟩
  intro hun
  cases shelf with
  | nil => rw [hperm.eq_nil]
  | cons first rest =>
    have hcap : config.maxVersionsIndexed ≠ 0 := by
      intro hzero
      have hlength := hshelf.length
      rw [hzero, length_cons] at hlength
      omega
    rw [head?_take, if_neg hcap, head?_cons]
    have hfirst := hshelf.held first mem_cons_self
    exact Shelf.sorted_head (by simp) (mem_listed_iff.mpr ⟨_, hfirst⟩)
      fun other hother => hnewest hun first rfl _ other (listed_stored hshelf.keyed hother)

include h in
theorem Indexed.optimizations_rederived :
    ((objects.rederived config registrar name arrival now).optimizationIndex).Perm
      objects.optimizationIndex ∧
    OptimizationsIndexed config registrar
      (objects.rederived config registrar name arrival now) := by
  obtain ⟨shelf, hlisted, hshelf⟩ := h.optimizations
  rw [hlisted]
  have hperm : (((listed (·.optimizations) arrival objects).mergeSort fun a b =>
      b.startedAt ≤ a.startedAt).take config.maxOptimizationsIndexed).Perm shelf :=
    hshelf.sorted_perm (map_key_listed hshelf.keyed arrival)
      (fun row => listed_stored hshelf.keyed) (by simp)
  exact ⟨hperm.map _, _, rfl, hshelf.perm hperm⟩

include h in
theorem Indexed.labels_rederived (name label : String) :
    (objects.rederived config registrar name arrival now).head.bind (·.labels[label]?) =
      objects.head.bind (·.labels[label]?) := by
  change (rebuilt config registrar name _ _ _ now).labels[label]? = _
  cases hhead : objects.head with
  | none => simp [rebuilt]
  | some head =>
    rw [← hhead, labels_rebuilt h.keyed hhead (h.labelled head hhead), hhead]
    rfl

/-- What a read goes on with, of the labels and the first of the index. -/
def target (label : Option String) (labels : String → Option String) (first : Option String) :
    Option String :=
  label.elim ((labels PRODUCTION_LABEL).or first) labels

theorem resolve_eq (label : Option String) (objects : PromptObjects) :
    ((resolve name label).run objects).1 =
      match target label (fun label => objects.head.bind (·.labels[label]?))
        (objects.index.head?.map (·.versionId)) with
      | none => .error (.unknownPrompt name)
      | some version => (objects.versions[version]?).elim
          (.error (.unknownVersion name version)) .ok := by
  unfold resolve target index
  rw [run_bind, run_read]
  cases hhead : objects.head with
  | none => cases label <;> rfl
  | some head =>
    change ((match label.elim head.current (head.labels[·]?) with
      | none => pure (.error (.unknownPrompt name))
      | some version => _ : Prog PromptObjects (Except RegistryError PromptVersion)).run
        objects).1 = match label.elim head.current (head.labels[·]?) with
      | none => _
      | some version => _
    cases label.elim head.current (head.labels[·]?) with
    | none => rfl
    | some version =>
      simp only [readVersion, run_bind, run_read]
      cases objects.versions[version]? <;> rfl

include h in
theorem Indexed.resolve_rederived (label : Option String) :
    ((resolve name label).run (objects.rederived config registrar name arrival now)).1 =
      ((resolve name label).run objects).1 := by
  obtain ⟨shelf, shelf', hlisted, hrebuilt, -, hfirst, -⟩ :=
    h.versions_rederived arrival now name
  have htarget : target label
      (fun label => (objects.rederived config registrar name arrival now).head.bind
        (·.labels[label]?))
      ((objects.rederived config registrar name arrival now).index.head?.map (·.versionId)) =
      target label (fun label => objects.head.bind (·.labels[label]?))
        (objects.index.head?.map (·.versionId)) := by
    simp only [h.labels_rederived]
    cases label with
    | some label => rfl
    | none =>
      cases hlabel : objects.head.bind (·.labels[PRODUCTION_LABEL]?) with
      | some id => simp [target, hlabel]
      | none =>
        rw [hrebuilt, hlisted, head?_map, head?_map, hfirst hlabel]
  rw [resolve_eq, resolve_eq, htarget]
  rfl

include h in
/-- **The head is what is stored**, as far as it is read and listed. -/
theorem Indexed.rederives (name : String) : Rederives config registrar name objects := by
  intro arrival now
  unfold rebuild
  simp only [run_bind, run_readAll]
  split
  · exact ⟨fun label => rfl, .rfl, .rfl⟩
  · obtain ⟨shelf, shelf', hlisted, hrebuilt, hperm, -⟩ :=
      h.versions_rederived arrival now name
    refine ⟨fun label => h.resolve_rederived arrival now label, ?_,
      (h.optimizations_rederived arrival now).1⟩
    rw [hlisted]
    exact (List.Perm.of_eq hrebuilt).trans (hperm.map _)

include h in
theorem Indexed.rederived (name : String) :
    Indexed config registrar (objects.rederived config registrar name arrival now) := by
  obtain ⟨-, shelf', -, hrebuilt, -, -, hshelf, hnewest⟩ := h.versions_rederived arrival now name
  have hlabels := h.labels_rederived arrival now name
  refine ⟨?_, ⟨shelf', hrebuilt, hshelf, fun hun => hnewest ((hlabels _).symm.trans hun)⟩,
    (h.optimizations_rederived arrival now).2⟩
  rintro head hhead label id hlabel
  have hbefore := hlabels label
  rw [mem_def.mp hhead, bind_some, hlabel] at hbefore
  obtain ⟨held, hheld, hid⟩ := bind_eq_some_iff.mp hbefore.symm
  exact h.labelled held hheld label id hid

end

/-- **With no label** a rebuild has the version read that was created last. -/
theorem resolve_of_newest (hun : Unlabelled objects) (hcap : 0 < config.maxVersionsIndexed)
    {arrival : Arrival}
    (hversion : version ∈ listed (·.versions) arrival objects)
    (hnewest : ∀ other ∈ listed (·.versions) arrival objects, other ≠ version →
      other.createdAt < version.createdAt)
    (hstored : objects.versions[version.versionId]? = some version) (now : OffsetDateTime) :
    ((resolve name none).run
      ((rebuild config registrar name arrival now).run objects).2).1 = .ok version := by
  have hrun : ((rebuild config registrar name arrival now).run objects).2 =
      objects.rederived config registrar name arrival now := by
    unfold rebuild
    simp only [run_bind, run_readAll]
    rw [if_neg fun hnone => ne_nil_of_mem hversion hnone.1]
    rfl
  have hlabel : (objects.rederived config registrar name arrival now).head.bind
      (·.labels[PRODUCTION_LABEL]?) = none := by
    change (rebuilt config registrar name _ _ _ now).labels[PRODUCTION_LABEL]? = _
    unfold Unlabelled at hun
    cases hhead : objects.head with
    | none => simp [rebuilt]
    | some head =>
      rw [hhead, bind_some] at hun
      rw [rebuilt, elim_some, ExtTreeMap.getElem?_filter', hun]
      rfl
  have hfirst : (objects.rederived config registrar name arrival now).index.head? =
      some version.summary := by
    change (((_ : List PromptVersion).take _).map _).head? = _
    rw [head?_map, head?_take, if_neg (Nat.ne_of_gt hcap),
      Shelf.sorted_head (by simp) hversion hnewest]
    rfl
  rw [hrun, resolve_eq, target, elim_none, hlabel, hfirst]
  change (objects.versions[version.versionId]?).elim _ _ = _
  rw [hstored]
  rfl

/-! ## What the operations leave -/

/-- A version that is put at the front of the index leaves out only older ones, and where no label
says what is read it is the newest. -/
def VersionInOrder (config : RegistryConfig) (objects : PromptObjects) (version : PromptVersion)
    (label : Option String) : Prop :=
  Yields config.maxVersionsIndexed objects.indexDates objects.versionDates
    (version.versionId, version.createdAt) ∧
  (label ≠ some PRODUCTION_LABEL → Unlabelled objects → 0 < config.maxVersionsIndexed →
    ∀ date ∈ objects.versionDates, date.1 ≠ version.versionId → date.2 < version.createdAt)

instance (config : RegistryConfig) (objects : PromptObjects) (version : PromptVersion)
    (label : Option String) : Decidable (VersionInOrder config objects version label) :=
  inferInstanceAs (Decidable (_ ∧ (_ → _ → _ → ∀ date ∈ objects.versionDates, _)))

/-- A publish puts its version at the front in order; or it is refused with nothing new stored, or
with a version that is older than a full index. -/
def PublishInOrder (config : RegistryConfig) (registrar : Registrar) (name : String)
    (objects : PromptObjects) (request : PublishRequest) (now : OffsetDateTime) : Prop :=
  ∀ version ∈ (requestedVersion config registrar name request now).toOption,
    if Passes objects (objects.stored version) request.label then
      VersionInOrder config objects (objects.stored version) request.label
    else (objects.versions[version.versionId]?).isSome ∨
      objects.index.length = config.maxVersionsIndexed ∧
        ∀ summary ∈ objects.index, version.createdAt < summary.createdAt

instance (config : RegistryConfig) (registrar : Registrar) (name : String)
    (objects : PromptObjects) (request : PublishRequest) (now : OffsetDateTime) :
    Decidable (PublishInOrder config registrar name objects request now) :=
  inferInstanceAs (Decidable
    (∀ version ∈ (requestedVersion config registrar name request now).toOption,
      if Passes objects (objects.stored version) request.label then _ else
        _ ∨ _ ∧ ∀ summary ∈ objects.index, _))

/-- An optimisation puts its candidate and its record at the front in order. -/
def RecordInOrder (config : RegistryConfig) (registrar : Registrar) (name : String)
    (objects : PromptObjects) (request : OptimizationRequest) (now : OffsetDateTime) : Prop :=
  ∀ found ∈ recorded config registrar name objects request now,
    VersionInOrder config objects found.2 (promoted request found.1) ∧
    Yields config.maxOptimizationsIndexed objects.optimizationIndexDates objects.optimizationDates
      (found.1.optimizationId, found.1.startedAt)

instance (config : RegistryConfig) (registrar : Registrar) (name : String)
    (objects : PromptObjects) (request : OptimizationRequest) (now : OffsetDateTime) :
    Decidable (RecordInOrder config registrar name objects request now) :=
  inferInstanceAs (Decidable
    (∀ found ∈ recorded config registrar name objects request now, _ ∧ _))

theorem versions_withVersion
    (hkeyed : ∀ (id : String) version, objects.versions[id]? = some version →
      version.versionId = id) (version : PromptVersion) :
    (objects.withVersion version).versions =
      objects.versions.insert (objects.stored version).versionId (objects.stored version) := by
  unfold withVersion stored
  cases hstored : objects.versions[version.versionId]? with
  | none => rfl
  | some existing =>
    refine ExtTreeMap.ext_getElem? fun id => ?_
    rw [Table.getElem?_insert, getD_some, hkeyed _ existing hstored, isSome_some, if_pos rfl]
    split
    · rename_i heq
      subst heq
      exact hstored
    · rfl

/-- **A version is indexed**, and maybe labelled. -/
theorem Indexed.putIndexed (name : String) (h : Indexed config registrar objects)
    (hversions : objects'.versions = objects.versions.insert version.versionId version)
    (label : Option String) (now : OffsetDateTime)
    (horder : VersionInOrder config objects version label)
    {head : PromptHead} (hhead : objects'.head = some head)
    (hlabels : head.labels =
      ((objects.head.getD (.opening name now)).pointed label version.versionId).labels)
    (hindex : head.versions = (version.summary ::
      (objects.head.getD (.opening name now)).versions.filter
        (·.versionId ≠ version.versionId)).take config.maxVersionsIndexed)
    (hoptimizations : OptimizationsIndexed config registrar objects') :
    Indexed config registrar objects' := by
  have hheld : ∀ label : String,
      (objects.head.getD (.opening name now)).labels[label]? =
        objects.head.bind (·.labels[label]?) := by
    intro label
    cases objects.head with
    | none => exact ExtTreeMap.getElem?_empty
    | some held => rfl
  have hpointed : ∀ other : String, head.labels[other]? =
      if label = some other then some version.versionId
      else objects.head.bind (·.labels[other]?) := by
    intro other
    rw [hlabels, PromptHead.pointed, ← hheld]
    cases label with
    | none => rfl
    | some label =>
      rw [elim_some, Table.getElem?_insert]
      exact if_congr some_inj.symm rfl rfl
  refine ⟨?_, h.versions.put hversions ?_ horder.1 fun hun => horder.2 ?_ ?_, hoptimizations⟩
  · intro held hheld other id hid
    rw [hhead] at hheld
    cases hheld
    rw [hpointed] at hid
    rw [hversions, ExtTreeMap.mem_insert]
    split at hid
    · cases hid
      exact .inl (by simp)
    · obtain ⟨held, hheld, hlabel⟩ := bind_eq_some_iff.mp hid
      exact .inr (h.labelled held hheld other id hlabel)
  · rw [index, hhead, elim_some, hindex, index]
    cases objects.head <;> rfl
  · rintro rfl
    rw [Unlabelled, hhead, bind_some, hpointed, if_pos rfl] at hun
    cases hun
  · rw [Unlabelled, hhead, bind_some, hpointed] at hun
    split at hun
    · cases hun
    · exact hun

section

variable (h : Indexed config registrar objects)

include h

/-- A version that is stored and not indexed is stored already, or older than a full index. -/
theorem Indexed.withVersion
    (horder : (objects.versions[version.versionId]?).isSome ∨
      objects.index.length = config.maxVersionsIndexed ∧
        ∀ summary ∈ objects.index, version.createdAt < summary.createdAt) :
    Indexed config registrar (objects.withVersion version) := by
  unfold PromptObjects.withVersion
  split
  · exact h
  · rename_i hnew
    obtain ⟨hfull, holder⟩ := horder.resolve_left hnew
    refine ⟨fun head hhead label id hid => ?_, h.versions.pass
      (not_isSome_iff_eq_none.mp hnew) rfl rfl hfull holder, h.optimizations.congr rfl rfl⟩
    exact ExtTreeMap.mem_insert.mpr (.inr (h.labelled head hhead label id hid))

theorem Indexed.publish (request : PublishRequest) (now : OffsetDateTime)
    (horder : PublishInOrder config registrar name objects request now) :
    Indexed config registrar
      ((publish config registrar name request now).run objects).2 := by
  revert horder
  unfold Prompts.publish PublishInOrder
  cases requestedVersion config registrar name request now with
  | error error => exact fun _ => h
  | ok version =>
    intro horder
    have horder := horder version rfl
    have hversions := versions_withVersion h.keyed version
    simp only [run_bind, run_storeVersion, run_read]
    rw [(looks_labelOf _ _).run]
    cases hlabel : ((labelOf name (objects.stored version) request.label).run
        (objects.withVersion version)).1 with
    | error error =>
      have hpasses : ¬ Passes objects (objects.stored version) request.label := by
        intro hpasses
        rw [(labelOf_ok_iff _ _).mpr (hpasses.congr (by simp))] at hlabel
        cases hlabel
      rw [if_neg hpasses] at horder
      exact h.withVersion horder
    | ok u =>
      have hpasses : Passes objects (objects.stored version) request.label :=
        ((labelOf_ok_iff _ _).mp hlabel).congr (by simp)
      rw [if_pos hpasses] at horder
      refine h.putIndexed name hversions request.label now horder rfl ?_ ?_ ?_
      · simp only [head_withVersion]
        cases request.label <;> rfl
      · simp only [head_withVersion]
        cases request.label <;> rfl
      · refine h.optimizations.congr (by simp [putHead]) ?_
        change ((objects.withVersion version).head.getD (.opening name now)).optimizations = _
        rw [head_withVersion, optimizationIndex]
        cases objects.head <;> rfl

theorem Indexed.putPointed {head : PromptHead} (hhead : objects.head = some head) {id : String}
    (hversion : objects.versions[id]? = some version) (label : String) (now : OffsetDateTime) :
    Indexed config registrar
      (objects.putHead { head.pointed (some label) id with updatedAt := now }) := by
  refine ⟨?_, h.versions.congr rfl ?_ fun hun => ?_, h.optimizations.congr rfl ?_⟩
  · rintro _ ⟨⟩ other target htarget
    rw [PromptHead.pointed, elim_some] at htarget
    obtain ⟨-, rfl⟩ | ⟨-, htarget⟩ := of_insert htarget
    · exact ExtTreeMap.mem_iff_isSome_getElem?.mpr (hversion ▸ rfl)
    · exact h.labelled head hhead other target htarget
  · rw [index, index, hhead]
    rfl
  · rw [Unlabelled, putHead, bind_some, PromptHead.pointed, elim_some, Table.getElem?_insert] at hun
    split at hun
    · cases hun
    · rw [Unlabelled, hhead]
      exact hun
  · rw [optimizationIndex, optimizationIndex, hhead]
    rfl

theorem Indexed.setLabel (label version : String) (now : OffsetDateTime) :
    Indexed config registrar ((setLabel name label version now).run objects).2 := by
  unfold Prompts.setLabel
  cases hvalid : validateIdentifier label with
  | error error => exact h
  | ok label =>
    dsimp only
    rw [run_bind, run_read]
    cases hhead : objects.head with
    | none => exact h
    | some head =>
      dsimp only [readVersion]
      rw [run_bind, run_read]
      cases hversion : objects.versions[version]? with
      | none => exact h
      | some stored =>
        dsimp only
        rw [run_bind, (looks_checkLabel _ _).run]
        cases ((checkLabel name stored label).run objects).1 with
        | error error => exact h
        | ok u => exact h.putPointed hhead hversion label now

theorem Indexed.recordOptimization (request : OptimizationRequest) (now : OffsetDateTime)
    (horder : RecordInOrder config registrar name objects request now) :
    Indexed config registrar
      ((recordOptimization config registrar name request now).run objects).2 := by
  revert horder
  unfold Prompts.recordOptimization RecordInOrder recorded
  dsimp only
  split
  · exact fun _ => h
  · simp only [readVersion]
    rw [run_bind, run_read]
    cases hbaseline : objects.versions[request.baseline]? with
    | none => exact fun _ => h
    | some baseline =>
      dsimp only
      cases hrequested : requestedCandidate config registrar name request baseline now with
      | error error => exact fun _ => h
      | ok requested =>
        obtain ⟨optimizationId, candidate⟩ := requested
        intro horder
        obtain ⟨hversion, hrecord⟩ := horder
          (recordOf registrar name request optimizationId baseline (objects.stored candidate)
            now, objects.stored candidate) (by simp [hrequested, Except.toOption])
        have hversions := versions_withVersion h.keyed candidate
        simp only [run_bind, run_storeVersion, run_read, run_write, run_pure]
        refine h.putIndexed name hversions _ now hversion rfl ?_ ?_
          (h.optimizations.put (recordOf registrar name request optimizationId baseline
            (objects.stored candidate) now) ?_ ?_ hrecord)
        · rw [promoted_recordOf]
          simp only [putOptimization, head_withVersion]
          rfl
        · simp only [putOptimization, head_withVersion]
          rfl
        · simp [putHead, putOptimization, recordOf]
        · change ((recordOf registrar name request optimizationId baseline
            (objects.stored candidate) now).summary registrar ::
              (((objects.withVersion candidate).head.getD
                (.opening name now)).optimizations.filter _)).take _ = _
          rw [head_withVersion, optimizationIndex]
          cases objects.head <;> rfl

/-! ## Every run -/

/-- What an operation lists, it lists in order. -/
def Operation.InOrder (config : RegistryConfig) (registrar : Registrar) (name : String)
    (operation : Operation) (objects : PromptObjects) : Prop :=
  match operation with
  | .publish request now => PublishInOrder config registrar name objects request now
  | .recordOptimization request now => RecordInOrder config registrar name objects request now
  | .setLabel _ _ _ | .rebuild _ _ => True

instance (config : RegistryConfig) (registrar : Registrar) (name : String) :
    (operation : Operation) → (objects : PromptObjects) →
      Decidable (operation.InOrder config registrar name objects)
  | .publish request now, objects =>
    inferInstanceAs (Decidable (PublishInOrder config registrar name objects request now))
  | .recordOptimization request now, objects =>
    inferInstanceAs (Decidable (RecordInOrder config registrar name objects request now))
  | .setLabel _ _ _, _ => isTrue trivial
  | .rebuild _ _, _ => isTrue trivial

/-- The operations of a prompt, each of them completed. -/
def completing (config : RegistryConfig) (registrar : Registrar) (name : String) :
    Machine PromptObjects Operation Unit where
  step objects operation :=
    some ([], ((operation.program config registrar name).run objects).2)

theorem Indexed.step (operation : Operation)
    (horder : operation.InOrder config registrar name objects) :
    Indexed config registrar ((operation.program config registrar name).run objects).2 := by
  cases operation with
  | publish request now =>
    rw [Operation.program, run_map]
    exact h.publish request now horder
  | setLabel label version now =>
    rw [Operation.program, run_map]
    exact h.setLabel label version now
  | recordOptimization request now =>
    rw [Operation.program, run_map]
    exact h.recordOptimization request now horder
  | rebuild arrival now =>
    rw [Operation.program, run_map]
    unfold Prompts.rebuild
    simp only [run_bind, run_readAll]
    split
    · exact h
    · exact h.rederived arrival now name

end

/-- **Every run** of operations in order leaves a head that a rebuild would make again. -/
theorem rederives_last (config : RegistryConfig) (registrar : Registrar) (name : String)
    (operations : List Operation)
    (horder : ∀ step ∈ (completing config registrar name).run {} operations,
      step.input.InOrder config registrar name step.before) :
    Rederives config registrar name ((completing config registrar name).last {} operations) := by
  refine Indexed.rederives ?_ name
  refine Machine.inv_last_of_admits (Indexed config registrar)
    (fun objects operation => operation.InOrder config registrar name objects)
    (fun objects operation out after h hkept hafter => ?_) indexed_new horder
  cases hafter
  exact h.step operation hkept

end Aiwatcher.Prompts
