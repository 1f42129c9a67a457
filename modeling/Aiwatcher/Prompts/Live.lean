import Aiwatcher.Prompts.Admitted

/-!
# Aiwatcher.Prompts.Live

When an operation, whole or cut off, leaves what a deployment reads vouched for, and every run of
operations that does.
-/

namespace Aiwatcher.Prompts

open Library Prog List Option Std

variable {config : RegistryConfig} {registrar : Registrar} {name : String}
  {objects objects' : PromptObjects}

/-! ## What is checked -/

/-- What `checkAdmitted` asks of a version: its record, whichever candidate that is about. -/
def Admits (objects : PromptObjects) (version : PromptVersion) : Prop :=
  match version.origin with
  | .authored => True
  | .optimized optimizationId _ => validateIdentifier optimizationId = .ok optimizationId ∧
      (objects.optimizations[optimizationId]?).any (·.outcome = .admitted)

instance (objects : PromptObjects) (version : PromptVersion) : Decidable (Admits objects version) :=
  match h : version.origin with
  | .authored => isTrue (by rw [Admits, h]; trivial)
  | .optimized optimizationId _ =>
    decidable_of_iff (validateIdentifier optimizationId = .ok optimizationId ∧
      (objects.optimizations[optimizationId]?).any (·.outcome = .admitted)) (by rw [Admits, h])

theorem validateIdentifier_ok {value checked : String}
    (h : validateIdentifier value = .ok checked) : checked = value := by
  unfold validateIdentifier at h
  split at h
  · exact (Except.ok.inj h).symm
  · cases h

variable (version : PromptVersion)

theorem looks_checkAdmitted : (checkAdmitted name version).Looks := by
  unfold checkAdmitted
  cases version.origin with
  | authored => exact looks_pure _
  | optimized optimizationId algorithm =>
    refine Looks.bind ?_ fun found => ?_
    · unfold optimization
      cases validateIdentifier optimizationId with
      | error error => exact looks_pure _
      | ok checked => exact (looks_read _).map _
    · rcases found with error | _ | record
      · exact looks_pure _
      · exact looks_pure _
      · dsimp only
        split <;> exact looks_pure _

theorem checkAdmitted_ok_iff :
    ((checkAdmitted name version).run objects).1 = .ok () ↔ Admits objects version := by
  unfold checkAdmitted Admits
  cases version.origin with
  | authored => simp
  | optimized optimizationId algorithm =>
    simp only [run_bind]
    unfold optimization
    cases hvalid : validateIdentifier optimizationId with
    | error error => simp
    | ok checked =>
      obtain rfl := validateIdentifier_ok hvalid
      simp only [run_map, run_read]
      cases objects.optimizations[checked]? with
      | none => simp
      | some record =>
        by_cases hadmitted : record.outcome = .admitted <;> simp [hadmitted]

/-- The label of a request is one, and `production` is let through. -/
def Passes (objects : PromptObjects) (version : PromptVersion) (label : Option String) : Prop :=
  ∀ label' ∈ label, validateIdentifier label' = .ok label' ∧
    (label' = PRODUCTION_LABEL → Admits objects version)

instance (objects : PromptObjects) (version : PromptVersion) (label : Option String) :
    Decidable (Passes objects version label) :=
  inferInstanceAs (Decidable (∀ label' ∈ label, _ ∧ (label' = PRODUCTION_LABEL →
    Admits objects version)))

theorem Passes.congr {version : PromptVersion} {label : Option String}
    (h : Passes objects version label)
    (hsame : objects'.optimizations = objects.optimizations) : Passes objects' version label := by
  refine fun label' hlabel => ⟨(h label' hlabel).1, fun hproduction => ?_⟩
  have hadmits := (h label' hlabel).2 hproduction
  unfold Admits at hadmits ⊢
  rwa [hsame]

theorem looks_checkLabel (label : String) : (checkLabel name version label).Looks := by
  unfold checkLabel
  split
  · exact looks_checkAdmitted version
  · exact looks_pure _

theorem checkLabel_ok_iff (label : String) :
    ((checkLabel name version label).run objects).1 = .ok () ↔
      (label = PRODUCTION_LABEL → Admits objects version) := by
  unfold checkLabel
  split
  · rename_i hlabel
    simp [checkAdmitted_ok_iff, hlabel]
  · rename_i hlabel
    simp [hlabel]

theorem looks_labelOf (label : Option String) : (labelOf name version label).Looks := by
  unfold labelOf
  split
  · exact looks_pure _
  · split
    · exact looks_pure _
    · exact looks_checkLabel version _

theorem labelOf_ok_iff (label : Option String) :
    ((labelOf name version label).run objects).1 = .ok () ↔ Passes objects version label := by
  unfold labelOf Passes
  cases label with
  | none => simp
  | some label =>
    dsimp only
    cases hvalid : validateIdentifier label with
    | error error => simp [hvalid]
    | ok checked =>
      obtain rfl := validateIdentifier_ok hvalid
      simp [checkLabel_ok_iff, hvalid]

/-! ## Publishing -/

/-- A publish that goes through puts nothing before a deployment that is not vouched for. -/
def PublishKeeps (config : RegistryConfig) (registrar : Registrar) (name : String)
    (objects : PromptObjects) (request : PublishRequest) (now : OffsetDateTime) : Prop :=
  ∀ version ∈ (requestedVersion config registrar name request now).toOption,
    Passes objects (objects.stored version) request.label →
      TakesOver config objects request.label → Vouched objects (objects.stored version)

instance (config : RegistryConfig) (registrar : Registrar) (name : String)
    (objects : PromptObjects) (request : PublishRequest) (now : OffsetDateTime) :
    Decidable (PublishKeeps config registrar name objects request now) :=
  inferInstanceAs (Decidable
    (∀ version ∈ (requestedVersion config registrar name request now).toOption, _ → _ → _))

/-- A last write behind looks: it is made, or nothing is. -/
theorem front_write_pure {α : Type} (n : Nat) (change : PromptObjects → PromptObjects) (a : α) :
    (write change >>= fun _ => pure a).front n objects = if n = 0 then objects
      else change objects := by
  cases n with
  | zero => rw [front_zero, if_pos rfl]
  | succ n => rw [front_write_bind, front_pure, if_neg (Nat.succ_ne_zero n)]

theorem Sound.publish (h : Sound objects) (request : PublishRequest) (now : OffsetDateTime)
    (n : Nat) (hkeeps : (publish config registrar name request now).accesses objects ≤ n →
      PublishKeeps config registrar name objects request now) :
    Sound ((publish config registrar name request now).front n objects) := by
  revert hkeeps
  unfold Prompts.publish PublishKeeps
  cases hrequested : requestedVersion config registrar name request now with
  | error error =>
    rw [front_pure]
    exact fun _ => h
  | ok version =>
    dsimp only
    intro hkeeps
    rcases Nat.le_total n ((storeVersion version).accesses objects) with hn | hn
    · rw [front_bind_of_le hn]
      rcases front_storeVersion objects version n with heq | heq <;> rw [heq]
      · exact h
      · exact h.withVersion version
    · have hstored := h.withVersion version
      rw [accesses_bind, run_storeVersion] at hkeeps
      rw [front_bind_of_accesses_le hn, run_storeVersion]
      dsimp only at hkeeps ⊢
      rw [accesses_bind, run_read, accesses_read, accesses_bind, (looks_labelOf _ _).run] at hkeeps
      rw [(looks_read _).front_bind, run_read, (looks_labelOf _ _).front_bind]
      cases hlabel : ((labelOf name (objects.stored version) request.label).run
          (objects.withVersion version)).1 with
      | error error =>
        rw [front_pure]
        exact hstored
      | ok u =>
        dsimp only
        rw [front_write_pure]
        split
        · exact hstored
        · rename_i hlast
          have hpasses := (labelOf_ok_iff _ _).mp hlabel
          refine hstored.putIndexed config name (h.stored version) request.label now
            (fun htakes => ?_) ?_ ?_
          · refine (hkeeps ?_ version rfl (hpasses.congr (by simp)) ?_).congr (by simp)
            · rw [hlabel]
              simp only [accesses_bind, accesses_write, accesses_pure]
              simp only [accesses_read] at hlast
              omega
            · simpa [TakesOver, Unlabelled] using htakes
          · simp only [PromptObjects.head_withVersion]
            cases request.label <;> rfl
          · simp only [PromptObjects.head_withVersion]
            cases request.label <;> rfl

/-! ## Labelling -/

/-- A label that is moved to `production` names a version that is vouched for. -/
def SetLabelKeeps (objects : PromptObjects) (label version : String) : Prop :=
  label = PRODUCTION_LABEL → objects.head.isSome → ∀ stored ∈ objects.versions[version]?,
    Admits objects stored → Vouched objects stored

instance (objects : PromptObjects) (label version : String) :
    Decidable (SetLabelKeeps objects label version) :=
  inferInstanceAs (Decidable (_ → _ → ∀ stored ∈ objects.versions[version]?, _ → _))

theorem Sound.setLabel (h : Sound objects) (label version : String) (now : OffsetDateTime) (n : Nat)
    (hkeeps : (setLabel name label version now).accesses objects ≤ n →
      SetLabelKeeps objects label version) :
    Sound ((setLabel name label version now).front n objects) := by
  revert hkeeps
  unfold Prompts.setLabel SetLabelKeeps
  cases hvalid : validateIdentifier label with
  | error error =>
    rw [front_pure]
    exact fun _ => h
  | ok checked =>
    obtain rfl := validateIdentifier_ok hvalid
    dsimp only
    rw [(looks_read _).front_bind, run_read, accesses_bind, run_read]
    cases hhead : objects.head with
    | none =>
      rw [front_pure]
      exact fun _ => h
    | some head =>
      dsimp only [readVersion]
      rw [(looks_read _).front_bind, run_read, accesses_bind, run_read]
      cases hversion : objects.versions[version]? with
      | none =>
        rw [front_pure]
        exact fun _ => h
      | some stored =>
        dsimp only
        rw [(looks_checkLabel _ _).front_bind, accesses_bind, (looks_checkLabel _ _).run]
        cases hlabel : ((checkLabel name stored checked).run objects).1 with
        | error error =>
          rw [front_pure]
          exact fun _ => h
        | ok u =>
          dsimp only
          rw [front_write_pure]
          intro hkeeps
          split
          · exact h
          · rename_i hlast
            have hadmits := (checkLabel_ok_iff _ _).mp hlabel
            refine h.putPointed hhead hversion checked (fun heq => ?_) rfl rfl
            refine hkeeps ?_ heq rfl stored rfl (hadmits heq)
            simp only [accesses_read, accesses_bind, accesses_write, accesses_pure] at hlast ⊢
            omega

/-! ## Recording an optimisation -/

/-- The record that a request comes to, with the version it is about, where nothing is wrong with
the request. -/
def recorded (config : RegistryConfig) (registrar : Registrar) (name : String)
    (objects : PromptObjects) (request : OptimizationRequest) (now : OffsetDateTime) :
    Option (OptimizationRecord × PromptVersion) := do
  if config.maxReportBytes < request.report.elim 0 byteLength then none
  let baseline ← objects.versions[request.baseline]?
  let (optimizationId, candidate) ←
    (requestedCandidate config registrar name request baseline now).toOption
  let stored := objects.stored candidate
  pure (recordOf registrar name request optimizationId baseline stored now, stored)

/-- The record a version answers to is another one, or admits it. -/
def Spares (record : OptimizationRecord) (version : PromptVersion) : Prop :=
  match version.origin with
  | .authored => True
  | .optimized optimizationId _ => optimizationId = record.optimizationId →
      record.candidate = version.versionId ∧ record.outcome = .admitted

instance (record : OptimizationRecord) (version : PromptVersion) :
    Decidable (Spares record version) :=
  match h : version.origin with
  | .authored => isTrue (by rw [Spares, h]; trivial)
  | .optimized optimizationId _ =>
    decidable_of_iff (optimizationId = record.optimizationId →
      record.candidate = version.versionId ∧ record.outcome = .admitted) (by rw [Spares, h])

/-- A record is not written over the one what is read answers to, but to admit it again. -/
def RecordKeeps (objects : PromptObjects) (record : OptimizationRecord) : Prop :=
  ∀ head ∈ objects.head, ∀ id ∈ head.current, ∀ version ∈ objects.versions[id]?,
    Spares record version

instance (objects : PromptObjects) (record : OptimizationRecord) :
    Decidable (RecordKeeps objects record) :=
  inferInstanceAs (Decidable (∀ head ∈ objects.head, ∀ id ∈ head.current,
    ∀ version ∈ objects.versions[id]?, Spares record version))

/-- The label an optimisation moves. -/
def promoted (request : OptimizationRequest) (record : OptimizationRecord) : Option String :=
  if request.promote ∧ record.outcome = .admitted then some PRODUCTION_LABEL else none

theorem promoted_recordOf (request : OptimizationRequest) (optimizationId : String)
    (baseline candidate : PromptVersion) (now : OffsetDateTime) :
    promoted request (recordOf registrar name request optimizationId baseline candidate now) =
      if request.promote ∧ (verdictOf registrar request baseline candidate).isAdmitted then
        some PRODUCTION_LABEL else none :=
  if_congr (by simp [recordOf, Verdict.isAdmitted]) rfl rfl

/-- A candidate is filed under nothing, under an optimisation that admitted it, or under this one,
which does. -/
def Filed (objects : PromptObjects) (record : OptimizationRecord) (candidate : PromptVersion) :
    Prop :=
  match candidate.origin with
  | .authored => True
  | .optimized optimizationId _ =>
    if optimizationId = record.optimizationId then record.outcome = .admitted
    else Vouched objects candidate

instance (objects : PromptObjects) (record : OptimizationRecord) (candidate : PromptVersion) :
    Decidable (Filed objects record candidate) :=
  match h : candidate.origin with
  | .authored => isTrue (by rw [Filed, h]; trivial)
  | .optimized optimizationId _ =>
    decidable_of_iff (if optimizationId = record.optimizationId then record.outcome = .admitted
      else Vouched objects candidate) (by rw [Filed, h])

/-- A candidate that is read from then on is filed so. -/
def CandidateKeeps (config : RegistryConfig) (objects : PromptObjects)
    (request : OptimizationRequest) (record : OptimizationRecord) (candidate : PromptVersion) :
    Prop :=
  TakesOver config objects (promoted request record) → Filed objects record candidate

instance (config : RegistryConfig) (objects : PromptObjects) (request : OptimizationRequest)
    (record : OptimizationRecord) (candidate : PromptVersion) :
    Decidable (CandidateKeeps config objects request record candidate) :=
  inferInstanceAs (Decidable (_ → _))

theorem CandidateKeeps.vouched {request : OptimizationRequest} {record : OptimizationRecord}
    {candidate : PromptVersion} (h : CandidateKeeps config objects request record candidate)
    (htakes : TakesOver config objects (promoted request record))
    (hcandidate : record.candidate = candidate.versionId) :
    Vouched (objects.putOptimization record) candidate := by
  have hkeeps := h htakes
  unfold Filed Vouched at hkeeps
  unfold Vouched
  cases horigin : candidate.origin with
  | authored => trivial
  | optimized optimizationId algorithm =>
    simp only [horigin] at hkeeps ⊢
    rw [PromptObjects.putOptimization, Table.getElem?_insert]
    by_cases heq : record.optimizationId = optimizationId
    · rw [if_pos heq.symm] at hkeeps
      simp [heq, hcandidate, hkeeps]
    · rw [if_neg (Ne.symm heq)] at hkeeps
      rw [if_neg heq]
      exact hkeeps

theorem Sound.withRecord (h : Sound objects) (candidate : PromptVersion)
    {record : OptimizationRecord} (hkeeps : RecordKeeps objects record) :
    Sound ((objects.withVersion candidate).putOptimization record) := by
  refine (h.withVersion candidate).putOptimization fun head hhead id hid version hversion
    algorithm horigin => ?_
  rw [PromptObjects.head_withVersion] at hhead
  have hbefore : version ∈ objects.versions[id]? := by
    obtain ⟨stored, hstored⟩ := isSome_iff_exists.mp
      (ExtTreeMap.mem_iff_isSome_getElem?.mp (h.current_mem hhead hid))
    unfold PromptObjects.withVersion at hversion
    split at hversion
    · exact hversion
    · rename_i hnew
      rw [PromptObjects.putVersion, Table.getElem?_insert] at hversion
      split at hversion
      · rename_i heq
        rw [heq, hstored] at hnew
        exact absurd rfl hnew
      · exact hversion
  have hrecord := hkeeps head hhead id hid version hbefore
  simp only [Spares, horigin] at hrecord
  exact hrecord trivial

theorem Sound.recordOptimization (h : Sound objects) (request : OptimizationRequest)
    (now : OffsetDateTime) (n : Nat)
    (hkeeps : ∀ found ∈ recorded config registrar name objects request now,
      ((recordOptimization config registrar name request now).accesses objects ≤ n + 2 →
        RecordKeeps objects found.1) ∧
      ((recordOptimization config registrar name request now).accesses objects ≤ n →
        CandidateKeeps config objects request found.1 found.2)) :
    Sound ((recordOptimization config registrar name request now).front n objects) := by
  revert hkeeps
  unfold Prompts.recordOptimization recorded
  dsimp only
  split
  · rw [front_pure]
    exact fun _ => h
  · simp only [readVersion]
    rw [(looks_read _).front_bind, run_read, accesses_bind, run_read]
    cases hbaseline : objects.versions[request.baseline]? with
    | none =>
      rw [front_pure]
      exact fun _ => h
    | some baseline =>
      dsimp only
      cases hrequested : requestedCandidate config registrar name request baseline now with
      | error error =>
        rw [front_pure]
        exact fun _ => h
      | ok requested =>
        obtain ⟨optimizationId, candidate⟩ := requested
        dsimp only
        intro hkeeps
        have hstored := h.withVersion candidate
        obtain ⟨hrecord, hcandidate⟩ := hkeeps
          (recordOf registrar name request optimizationId baseline (objects.stored candidate)
            now, objects.stored candidate) (by simp [hrequested, Except.toOption])
        clear hkeeps
        rw [accesses_bind, run_storeVersion] at hrecord hcandidate
        dsimp only at hrecord hcandidate
        simp only [accesses_read, accesses_bind, accesses_write,
          accesses_pure] at hrecord hcandidate
        generalize hrun : n - (read fun objects : PromptObjects =>
          objects.versions[request.baseline]?).accesses objects = m
        rw [accesses_read] at hrun
        rcases Nat.le_total m ((storeVersion candidate).accesses objects) with hm | hm
        · rw [front_bind_of_le hm]
          rcases front_storeVersion objects candidate m with heq | heq <;> rw [heq]
          · exact h
          · exact hstored
        · rw [front_bind_of_accesses_le hm, run_storeVersion]
          dsimp only
          generalize hleft : m - (storeVersion candidate).accesses objects = left
          rcases left with _ | _ | left
          · rw [front_zero]
            exact hstored
          · rw [Nat.zero_add, front_write_bind, front_zero]
            exact h.withRecord candidate (hrecord (by omega))
          · have hfiled := h.withRecord candidate (hrecord (by omega))
            rw [front_write_bind, front_read_bind, front_write_pure]
            split
            · exact hfiled
            · refine hfiled.putIndexed config name (h.stored candidate)
                (promoted request (recordOf registrar name request optimizationId baseline
                  (objects.stored candidate) now)) now (fun htakes => ?_) ?_ ?_
              · refine ((hcandidate (by omega)).vouched ?_ rfl).congr ?_
                · simpa [TakesOver, Unlabelled, PromptObjects.putOptimization] using htakes
                · simp [PromptObjects.putOptimization]
              · rw [promoted_recordOf]
                rfl
              · rfl

/-! ## Rebuilding -/

/-- The objects under a prefix, as they come back. -/
def listed {β : Type} (objectsOf : PromptObjects → BTreeMap String β) (arrival : Arrival)
    (objects : PromptObjects) : List β :=
  (arrival.order (objectsOf objects).keys).filterMap fun key => (objectsOf objects)[key]?

theorem mem_listed_iff {β : Type} {objectsOf : PromptObjects → BTreeMap String β}
    {arrival : Arrival} {row : β} : row ∈ listed objectsOf arrival objects ↔
      ∃ key : String, (objectsOf objects)[key]? = some row := by
  simp only [listed, mem_filterMap, (arrival.perm _).mem_iff, ExtTreeMap.mem_keys]
  refine ⟨fun ⟨key, _, hrow⟩ => ⟨key, hrow⟩, fun ⟨key, hrow⟩ => ⟨key, ?_, hrow⟩⟩
  rw [ExtTreeMap.mem_iff_isSome_getElem?, hrow]
  rfl

theorem looks_readAll {β : Type} (objectsOf : PromptObjects → BTreeMap String β)
    (arrival : Arrival) : (readAll objectsOf arrival).Looks :=
  (looks_read _).bind fun _ => (looks_mapM (fun _ => looks_read _) _).bind fun _ => looks_pure _

theorem run_readAll {β : Type} (objectsOf : PromptObjects → BTreeMap String β)
    (arrival : Arrival) :
    (readAll objectsOf arrival).run objects = (listed objectsOf arrival objects, objects) := by
  simp only [readAll, listed, run_bind, run_read, run_pure]
  rw [run_mapM_read]
  simp [filterMap_map]

/-- The version a head that is rebuilt puts first. -/
def newest (arrival : Arrival) (objects : PromptObjects) : Option PromptVersion :=
  ((listed (·.versions) arrival objects).mergeSort fun a b => b.createdAt ≤ a.createdAt).head?

/-- With no label, the version that was created last is vouched for. -/
def RebuildKeeps (config : RegistryConfig) (arrival : Arrival) (objects : PromptObjects) : Prop :=
  Unlabelled objects → 0 < config.maxVersionsIndexed →
    ∀ version ∈ newest arrival objects, Vouched objects version

theorem labels_rebuilt
    (hkeyed : ∀ (id : String) version, objects.versions[id]? = some version →
      version.versionId = id)
    {head : PromptHead} (hhead : objects.head = some head)
    (hlabelled : ∀ (label : String) id, head.labels[label]? = some id → id ∈ objects.versions)
    (arrival : Arrival) (optimizations : List OptimizationRecord) (now : OffsetDateTime)
    (label : String) :
    (rebuilt config registrar name (listed (·.versions) arrival objects) optimizations objects.head
      now).labels[label]? = head.labels[label]? := by
  rw [rebuilt, hhead, elim_some, ExtTreeMap.getElem?_filter']
  cases hlabel : head.labels[label]? with
  | none => rfl
  | some id =>
    obtain ⟨version, hversion⟩ := isSome_iff_exists.mp
      (ExtTreeMap.mem_iff_isSome_getElem?.mp (hlabelled label id hlabel))
    rw [filter_some, if_pos]
    refine any_eq_true.mpr ⟨version, ?_, by simpa using hkeyed id version hversion⟩
    exact mem_mergeSort.mpr (mem_listed_iff.mpr ⟨id, hversion⟩)

theorem Sound.putRebuilt (h : Sound objects) {arrival : Arrival}
    (hkeeps : RebuildKeeps config arrival objects) (optimizations : List OptimizationRecord)
    (now : OffsetDateTime) :
    Sound (objects.putHead (rebuilt config registrar name (listed (·.versions) arrival objects)
      optimizations objects.head now)) := by
  have hheld : ∀ (label : String) id, (rebuilt config registrar name
      (listed (·.versions) arrival objects) optimizations objects.head now).labels[label]? =
        some id → ∃ head ∈ objects.head, head.labels[label]? = some id := by
    intro label id hlabel
    cases hhead : objects.head with
    | none => simp [rebuilt, hhead] at hlabel
    | some head =>
      rw [labels_rebuilt h.keyed hhead (h.labelled head hhead)] at hlabel
      exact ⟨head, rfl, hlabel⟩
  refine h.putHead (fun label id hlabel => ?_) (fun summary hsummary => ?_) fun id hid version
    hversion => ?_
  · obtain ⟨head, hhead, hlabel⟩ := hheld label id hlabel
    exact h.labelled head hhead label id hlabel
  · obtain ⟨version, hversion, rfl⟩ := mem_map.mp hsummary
    obtain ⟨id, hid⟩ := mem_listed_iff.mp (mem_mergeSort.mp (mem_of_mem_take hversion))
    rw [PromptVersion.summary, h.keyed id version hid, ExtTreeMap.mem_iff_isSome_getElem?, hid]
    rfl
  · suffices hvouched : Vouched objects version from hvouched.congr rfl
    rcases or_eq_some_iff.mp hid with hlabel | ⟨hnone, hfirst⟩
    · obtain ⟨head, hhead, hlabel⟩ := hheld _ id hlabel
      refine h.vouched head hhead id ?_ version hversion
      rw [PromptHead.current, hlabel]
      rfl
    · have hun : Unlabelled objects := by
        unfold Unlabelled
        cases hhead : objects.head with
        | none => rfl
        | some head =>
          rw [labels_rebuilt h.keyed hhead (h.labelled head hhead)] at hnone
          exact hnone
      rw [rebuilt, head?_map, head?_take] at hfirst
      split at hfirst
      · cases hfirst
      · rename_i hmax
        rw [Option.map_map] at hfirst
        obtain ⟨newest, hnewest, rfl⟩ := map_eq_some_iff.mp hfirst
        have hstored : objects.versions[newest.versionId]? = some newest := by
          obtain ⟨key, hkey⟩ := mem_listed_iff.mp
            (mem_mergeSort.mp (mem_of_mem_head? hnewest))
          rw [h.keyed key newest hkey]
          exact hkey
        obtain rfl := some.inj (hstored.symm.trans hversion)
        exact hkeeps hun (Nat.pos_of_ne_zero hmax) newest hnewest

instance (config : RegistryConfig) (arrival : Arrival) (objects : PromptObjects) :
    Decidable (RebuildKeeps config arrival objects) :=
  inferInstanceAs (Decidable (_ → _ → ∀ version ∈ newest arrival objects, Vouched objects version))

theorem Sound.rebuild (h : Sound objects) (arrival : Arrival) (now : OffsetDateTime) (n : Nat)
    (hkeeps : (rebuild config registrar name arrival now).accesses objects ≤ n →
      RebuildKeeps config arrival objects) :
    Sound ((rebuild config registrar name arrival now).front n objects) := by
  revert hkeeps
  unfold Prompts.rebuild
  simp only [accesses_bind, (looks_readAll _ _).front_bind, run_readAll]
  split
  · rw [front_pure]
    exact fun _ => h
  · simp only [(looks_read _).front_bind, run_read, accesses_bind, run_read, front_write_pure]
    intro hkeeps
    split
    · exact h
    · rename_i hlast
      refine h.putRebuilt (hkeeps ?_) _ now
      simp only [accesses_read, accesses_write, accesses_pure] at hlast ⊢
      omega

end Aiwatcher.Prompts
