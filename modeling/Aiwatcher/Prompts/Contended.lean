import Aiwatcher.Library.Edits
import Aiwatcher.Prompts.Rederived

/-!
# Aiwatcher.Prompts.Contended

Operations on one prompt that run at the same time: each reads the head, and puts it back whole
with one label moved.
-/

namespace Aiwatcher.Prompts

open Library Prog Std

variable (config : RegistryConfig) (registrar : Registrar) (name : String)

theorem mem_labels_keys (held : Option PromptHead) (label : String)
    (h : held.bind (·.labels[label]?) ≠ none) : label ∈ held.elim [] (·.labels.keys) := by
  cases held with
  | none => exact absurd rfl h
  | some head =>
    rw [Option.elim_some, ExtTreeMap.mem_keys, ExtTreeMap.mem_iff_isSome_getElem?]
    exact Option.isSome_iff_ne_none.mpr h

/-- The head of a prompt, by its labels. -/
def headCell : Cell PromptObjects (Option PromptHead) PromptHead String String where
  get := (·.head)
  put := .putHead
  made := some
  get_put _ _ := rfl
  keys held := held.elim [] (·.labels.keys)
  entry held label := held.bind (·.labels[label]?)
  mem_keys := mem_labels_keys

theorem entry_pointed (held : Option PromptHead) (now : OffsetDateTime) (label : Option String)
    (version other : String) :
    (((held.getD (.opening name now)).pointed label version).labels[other]?) =
      moved (label.map (·, version)) (headCell.entry held) other := by
  have hheld : (held.getD (.opening name now)).labels[other]? = headCell.entry held other := by
    cases held with
    | none => exact ExtTreeMap.getElem?_empty
    | some head => rfl
  cases label with
  | none => exact hheld
  | some label =>
    rw [PromptHead.pointed, Option.elim_some, Table.getElem?_insert, hheld]
    rfl

/-- What an edit must make of the labels. -/
def Moves (move : Option (String × String)) (held : Option PromptHead)
    (result : Except RegistryError PromptHead) : Prop :=
  ∀ head, result = .ok head → ∀ label,
    headCell.entry (headCell.made head) label = moved move (headCell.entry held) label

/-- The head stays as it is. -/
def SparesHead {α : Type} (p : Prog PromptObjects α) : Prop :=
  p.Within fun s t => headCell.get t = headCell.get s

theorem sparesHead_read {α : Type} (look : PromptObjects → α) : SparesHead (read look) :=
  fun _ => ⟨rfl, trivial⟩

theorem sparesHead_write {change : PromptObjects → PromptObjects}
    (h : ∀ objects, (change objects).head = objects.head) : SparesHead (write change) :=
  within_write h

theorem sparesHead_storeVersion (version : PromptVersion) : SparesHead (storeVersion version) := by
  refine (sparesHead_read _).bind fun found => ?_
  cases found with
  | some existing => exact within_pure _
  | none => exact (sparesHead_write fun _ => rfl).bind fun _ => within_pure _

/-! ## Publishing -/

/-- What a publish makes of the head, once its version is stored. -/
def publishSettle (request : PublishRequest) (now : OffsetDateTime) (version : PromptVersion)
    (held : Option PromptHead) : Prog PromptObjects (Except RegistryError PromptHead) := do
  match ← labelOf name version request.label with
  | .error error => pure (.error error)
  | .ok () => pure (.ok (indexVersion config ((described (held.getD (.opening name now))
      request).pointed request.label version.versionId) version now))

variable (request : PublishRequest)

section

variable (now : OffsetDateTime)

include now

theorem looks_publishSettle (version : PromptVersion) (held : Option PromptHead) :
    (publishSettle config name request now version held).Looks := by
  refine (looks_labelOf _ _).bind fun checked => ?_
  cases checked <;> exact looks_pure _

theorem returns_publishSettle (version : PromptVersion) (held : Option PromptHead) :
    (publishSettle config name request now version held).Returns
      (Moves (request.label.map (·, version.versionId)) held) := by
  have hany := returns_of_forall (fun _ : Except RegistryError Unit => trivial)
    (labelOf name version request.label)
  refine hany.bind fun checked _ => ?_
  cases checked with
  | error error => exact fun head hhead => nomatch hhead
  | ok u =>
    rintro _ ⟨⟩ label
    refine Eq.trans ?_ (entry_pointed name held now request.label version.versionId label)
    cases request.label <;> rfl

def publishSettling (request : PublishRequest) (now : OffsetDateTime) (version : PromptVersion) :
    Settling headCell RegistryError where
  move := request.label.map (·, version.versionId)
  settle := publishSettle config name request now version
  looks := looks_publishSettle config name request now version
  moves := returns_publishSettle config name request now version

def publishDraft (request : PublishRequest) (now : OffsetDateTime) :
    Prog PromptObjects (Except RegistryError (Settling headCell RegistryError)) :=
  match requestedVersion config registrar name request now with
  | .error error => pure (.error error)
  | .ok version => do
      let (version, _) ← storeVersion version
      pure (.ok (publishSettling config name request now version))

theorem sparesHead_publishDraft : SparesHead (publishDraft config registrar name request now) := by
  unfold publishDraft
  cases requestedVersion config registrar name request now with
  | error error => exact within_pure _
  | ok version => exact (sparesHead_storeVersion version).bind fun _ => within_pure _

def publishEdit (request : PublishRequest) (now : OffsetDateTime) :
    Edit headCell RegistryError where
  draft := publishDraft config registrar name request now
  spares := sparesHead_publishDraft config registrar name request now

theorem program_publishEdit :
    (publishEdit config registrar name request now).program =
      (fun result => result.map fun published =>
        request.label.map (·, published.version.versionId)) <$>
          publish config registrar name request now := by
  unfold Edit.program publishEdit publishDraft publish draftRest
  dsimp only
  cases requestedVersion config registrar name request now with
  | error error => rfl
  | ok version =>
    simp only [map_eq_pure_bind, bind_assoc, pure_bind]
    refine congrArg _ (funext fun found => congrArg _ (funext fun held => ?_))
    simp only [publishSettling, publishSettle, Settling.rest, bind_assoc]
    refine congrArg _ (funext fun checked => ?_)
    cases checked <;> rfl

end

/-! ## Labelling -/

/-- What moving a label makes of the head. -/
def setLabelSettle (label version : String) (now : OffsetDateTime) (held : Option PromptHead) :
    Prog PromptObjects (Except RegistryError PromptHead) := do
  match held with
  | none => pure (.error (.unknownPrompt name))
  | some head =>
    match ← readVersion version with
    | none => pure (.error (.unknownVersion name version))
    | some stored =>
      match ← checkLabel name stored label with
      | .error error => pure (.error error)
      | .ok () => pure (.ok { head.pointed (some label) version with updatedAt := now })

variable (label version : String)

section

variable (now : OffsetDateTime)

include now

theorem looks_setLabelSettle (held : Option PromptHead) :
    (setLabelSettle name label version now held).Looks := by
  unfold setLabelSettle
  cases held with
  | none => exact looks_pure _
  | some head =>
    refine (looks_read _).bind fun found => ?_
    cases found with
    | none => exact looks_pure _
    | some stored =>
      refine (looks_checkLabel _ _).bind fun checked => ?_
      cases checked <;> exact looks_pure _

theorem returns_setLabelSettle (held : Option PromptHead) :
    (setLabelSettle name label version now held).Returns
      (Moves (some (label, version)) held) := by
  unfold setLabelSettle
  cases held with
  | none => exact fun head hhead => nomatch hhead
  | some head =>
    have hread := returns_of_forall (fun _ : Option PromptVersion => trivial)
      (readVersion version)
    refine hread.bind fun found _ => ?_
    cases found with
    | none => exact fun head hhead => nomatch hhead
    | some stored =>
      have hany := returns_of_forall (fun _ : Except RegistryError Unit => trivial)
        (checkLabel name stored label)
      refine hany.bind fun checked _ => ?_
      cases checked with
      | error error => exact fun head hhead => nomatch hhead
      | ok u =>
        rintro _ ⟨⟩ other
        exact entry_pointed name (some head) now (some label) version other

def setLabelSettling (label version : String) (now : OffsetDateTime) :
    Settling headCell RegistryError where
  move := some (label, version)
  settle := setLabelSettle name label version now
  looks := looks_setLabelSettle name label version now
  moves := returns_setLabelSettle name label version now

def setLabelDraft (label version : String) (now : OffsetDateTime) :
    Prog PromptObjects (Except RegistryError (Settling headCell RegistryError)) :=
  match validateIdentifier label with
  | .error error => pure (.error error)
  | .ok label => pure (.ok (setLabelSettling name label version now))

theorem sparesHead_setLabelDraft : SparesHead (setLabelDraft name label version now) := by
  unfold setLabelDraft
  cases validateIdentifier label <;> exact within_pure _

def setLabelEdit (label version : String) (now : OffsetDateTime) : Edit headCell RegistryError where
  draft := setLabelDraft name label version now
  spares := sparesHead_setLabelDraft name label version now

theorem program_setLabelEdit :
    (setLabelEdit name label version now).program =
      (fun result => result.map fun _ => some (label, version)) <$>
        setLabel name label version now := by
  unfold Edit.program setLabelEdit setLabelDraft setLabel draftRest
  dsimp only
  cases hvalid : validateIdentifier label with
  | error error => rfl
  | ok checked =>
    obtain rfl := validateIdentifier_ok hvalid
    simp only [map_eq_pure_bind, bind_assoc, pure_bind]
    refine congrArg _ (funext fun held => ?_)
    simp only [setLabelSettling, setLabelSettle, Settling.rest]
    cases held with
    | none => rfl
    | some head =>
      simp only [bind_assoc]
      refine congrArg _ (funext fun found => ?_)
      cases found with
      | none => rfl
      | some stored =>
        simp only [bind_assoc]
        refine congrArg _ (funext fun checked => ?_)
        cases checked <;> rfl

end

/-! ## Recording an optimisation -/

/-- What an optimisation makes of the head, once its record is written. -/
def recordSettle (request : OptimizationRequest) (now : OffsetDateTime)
    (record : OptimizationRecord) (candidate : PromptVersion) (held : Option PromptHead) :
    Prog PromptObjects (Except RegistryError PromptHead) :=
  pure (.ok ((indexOptimization config registrar (indexVersion config
    (held.getD (.opening name now)) candidate now) record).pointed (promoted request record)
      candidate.versionId))

theorem returns_recordSettle (request : OptimizationRequest) (now : OffsetDateTime)
    (record : OptimizationRecord) (candidate : PromptVersion) (held : Option PromptHead) :
    (recordSettle config registrar name request now record candidate held).Returns
      (Moves ((promoted request record).map (·, candidate.versionId)) held) := by
  rintro _ ⟨⟩ label
  exact entry_pointed name held now (promoted request record) candidate.versionId label

def recordSettling (request : OptimizationRequest) (now : OffsetDateTime)
    (record : OptimizationRecord) (candidate : PromptVersion) :
    Settling headCell RegistryError where
  move := (promoted request record).map (·, candidate.versionId)
  settle := recordSettle config registrar name request now record candidate
  looks _ := looks_pure _
  moves := returns_recordSettle config registrar name request now record candidate

def recordDraft (request : OptimizationRequest) (now : OffsetDateTime) :
    Prog PromptObjects (Except RegistryError (Settling headCell RegistryError)) :=
  let size := request.report.elim 0 byteLength
  if config.maxReportBytes < size then
    pure (.error (.tooLarge "the optimisation report" size config.maxReportBytes))
  else do
    match ← readVersion request.baseline with
    | none => pure (.error (.unknownVersion name request.baseline))
    | some baseline =>
      match requestedCandidate config registrar name request baseline now with
      | .error error => pure (.error error)
      | .ok (optimizationId, candidate) =>
        let (candidate, _) ← storeVersion candidate
        let record := recordOf registrar name request optimizationId baseline candidate now
        write (.putOptimization record)
        pure (.ok (recordSettling config registrar name request now record candidate))

theorem sparesHead_recordDraft (request : OptimizationRequest) (now : OffsetDateTime) :
    SparesHead (recordDraft config registrar name request now) := by
  unfold recordDraft
  dsimp only
  split
  · exact within_pure _
  · refine (sparesHead_read _).bind fun found => ?_
    cases found with
    | none => exact within_pure _
    | some baseline =>
      dsimp only
      cases requestedCandidate config registrar name request baseline now with
      | error error => exact within_pure _
      | ok requested =>
        exact (sparesHead_storeVersion _).bind fun _ =>
          (sparesHead_write fun _ => rfl).bind fun _ => within_pure _

def recordEdit (request : OptimizationRequest) (now : OffsetDateTime) :
    Edit headCell RegistryError where
  draft := recordDraft config registrar name request now
  spares := sparesHead_recordDraft config registrar name request now

theorem program_recordEdit (request : OptimizationRequest) (now : OffsetDateTime) :
    (recordEdit config registrar name request now).program =
      (fun result => result.map fun record => (promoted request record).map (·, record.candidate))
        <$> recordOptimization config registrar name request now := by
  unfold Edit.program recordEdit recordDraft recordOptimization draftRest
  dsimp only
  split
  · rfl
  · simp only [map_eq_pure_bind, bind_assoc]
    refine congrArg _ (funext fun found => ?_)
    cases found with
    | none => rfl
    | some baseline =>
      dsimp only
      cases requestedCandidate config registrar name request baseline now with
      | error error => rfl
      | ok requested =>
        simp only [bind_assoc, pure_bind]
        refine congrArg _ (funext fun found => congrArg _ (funext fun _ => congrArg _
          (funext fun held => ?_)))
        simp only [recordSettling, recordSettle, Settling.rest, pure_bind]
        rw [← @promoted_recordOf registrar name request requested.1 baseline found.1 now]
        rfl

/-! ## Together -/

/-- An operation that puts the head back. -/
inductive Writer where
  | publish (request : PublishRequest) (now : OffsetDateTime)
  | setLabel (label version : String) (now : OffsetDateTime)
  | recordOptimization (request : OptimizationRequest) (now : OffsetDateTime)

def Writer.edit : Writer → Edit headCell RegistryError
  | publish request now => publishEdit config registrar name request now
  | setLabel label version now => setLabelEdit name label version now
  | recordOptimization request now => recordEdit config registrar name request now

/-- Operations under way on one prompt. -/
def contended {Party : Type} (writers : Party → Writer) (objects : PromptObjects) :
    Desk headCell RegistryError Party :=
  .opening (fun party => (writers party).edit config registrar name) objects

/-- A label that was moved names what it was moved to, or another operation moved it too. -/
def LabelsStand {Party : Type} (table : Desk headCell RegistryError Party) : Prop :=
  ∀ party label version, (table.phases party).changed = some (label, version) →
    (table.state.head.bind fun head => head.labels[label]?) = some version ∨
      ∃ other ≠ party, ∃ version', (table.phases other).changed = some (label, version')

/-- **The head is derivable and its labels stand**: a rebuild behind operations in order changes
nothing that is read, and operations that put the head back in time lose no label. -/
theorem rederives_and_stands {Party : Type} [DecidableEq Party] (operations : List Operation)
    (horder : ∀ step ∈ (completing config registrar name).run {} operations,
      step.input.InOrder config registrar name step.before)
    (writers : Party → Writer) (objects : PromptObjects) (turns : List Party)
    (htime : ∀ step ∈ (desk headCell RegistryError Party).run
        (contended config registrar name writers objects) turns,
      (step.before.phases step.input).InTime step.before.state) :
    Rederives config registrar name ((completing config registrar name).last {} operations) ∧
    LabelsStand ((desk headCell RegistryError Party).last
      (contended config registrar name writers objects) turns) :=
  ⟨rederives_last config registrar name operations horder,
    (in_force (fun party => (writers party).edit config registrar name) objects turns htime).force⟩

/-- Two versions in order, labelled, one of them published again, an optimisation, and a rebuild. -/
def kept : List Operation :=
  [.publish { text := "Answer." } 1, .publish { text := "Answer briefly." } 2,
    .setLabel PRODUCTION_LABEL (tabled.versionId "Answer.") 3, .publish { text := "Answer." } 4,
    .recordOptimization (optimizing "opt-1" "Answer in one line."
      (scored 0x3FE8000000000000 0x3FE0000000000000) false) 5,
    .rebuild ⟨id, List.Perm.refl⟩ 6]

/-- One of two operations publishes, the other labels. -/
def publishing (label : String) : Bool → Writer
  | true => .publish { text := "Answer briefly." } 5
  | false => .setLabel label (tabled.versionId "Answer.") 6

/-- A prompt of one version. -/
def published : PromptObjects :=
  (completing {} tabled "assistant").last {} [.publish { text := "Answer." } 1]

theorem rederives_and_stands_kept :
    Rederives {} tabled "assistant" ((completing {} tabled "assistant").last {} kept) ∧
    LabelsStand ((desk headCell RegistryError Bool).last
      (contended {} tabled "assistant" (publishing "staging") published)
      [true, true, false, false, false, false, true, true, true]) :=
  rederives_and_stands {} tabled "assistant" kept (by decide +kernel) (publishing "staging")
    published [true, true, false, false, false, false, true, true, true] (by decide +kernel)

/-- A version is published, another one, and the first one again. -/
def republished : PromptObjects :=
  (completing {} tabled "assistant").last {} [.publish { text := "Answer." } 1,
    .publish { text := "Answer briefly." } 2, .publish { text := "Answer." } 3]

/-- The version of a text nobody says anything about. -/
def plain (text : String) (createdAt : OffsetDateTime) : PromptVersion where
  name := "assistant"
  versionId := tabled.versionId text
  text
  createdAt
  «variables» := []

/-- **A text that is published again** is what is read until a rebuild; **and a label** that is
moved between another operation's read of the head and its write is lost. -/
theorem republished_and_lost : ¬ Rederives {} tabled "assistant" republished ∧
    ¬ LabelsStand ((desk headCell RegistryError Bool).last
      (contended {} tabled "assistant" (publishing "staging") published)
      [true, true, true, false, false, false, false, true, true]) := by
  refine ⟨fun h => ?_, fun h => ?_⟩
  · have hlisted : listed (·.versions) ⟨id, fun _ => .rfl⟩ republished =
        [plain "Answer." 1, plain "Answer briefly." 2] := by decide +kernel
    have hafter : ((resolve "assistant" none).run ((rebuild {} tabled "assistant"
        ⟨id, fun _ => .rfl⟩ 4).run republished).2).1 = .ok (plain "Answer briefly." 2) :=
      resolve_of_newest (by decide +kernel) (by decide) (by rw [hlisted]; decide +kernel)
        (by rw [hlisted]; decide +kernel) (by decide +kernel) 4
    have hbefore : ((resolve "assistant" none).run republished).1.toOption =
        some (plain "Answer." 1) := by decide +kernel
    rw [← (h ⟨id, fun _ => .rfl⟩ 4).1 none, hafter] at hbefore
    revert hbefore
    decide +kernel
  · rcases h false "staging" (tabled.versionId "Answer.") (by decide +kernel) with
      hlabel | ⟨other, hother, version', hmoved⟩
    · revert hlabel
      decide +kernel
    · obtain rfl : other = true := by simpa using hother
      have hpublish : (((desk headCell RegistryError Bool).last
          (contended {} tabled "assistant" (publishing "staging") published)
          [true, true, true, false, false, false, false, true, true]).phases true).changed =
            none := by decide +kernel
      rw [hpublish] at hmoved
      cases hmoved

end Aiwatcher.Prompts
