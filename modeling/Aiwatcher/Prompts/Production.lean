import Aiwatcher.Prompts.Live

/-!
# Aiwatcher.Prompts.Production

Every run of a prompt's operations, each of them whole or cut off by a crash, and what a deployment
reads between any two of their accesses.
-/

namespace Aiwatcher.Prompts

open Library Prog

variable {config : RegistryConfig} {registrar : Registrar} {name : String}
  {objects : PromptObjects}

/-- What is asked of the registry. -/
inductive Operation where
  | publish (request : PublishRequest) (now : OffsetDateTime)
  | setLabel (label version : String) (now : OffsetDateTime)
  | recordOptimization (request : OptimizationRequest) (now : OffsetDateTime)
  | rebuild (arrival : Arrival) (now : OffsetDateTime)

/-- An operation, and how many accesses it makes where it does not come to its end. -/
structure Act where
  operation : Operation
  cut : Option Nat := none

section

variable (config : RegistryConfig) (registrar : Registrar) (name : String)

def Operation.program : Operation → Prog PromptObjects Unit
  | publish request now => (fun _ => ()) <$> Prompts.publish config registrar name request now
  | setLabel label version now => (fun _ => ()) <$> Prompts.setLabel name label version now
  | recordOptimization request now =>
    (fun _ => ()) <$> Prompts.recordOptimization config registrar name request now
  | rebuild arrival now => (fun _ => ()) <$> Prompts.rebuild config registrar name arrival now

namespace Act

/-- How many accesses are made. -/
def made (act : Act) (objects : PromptObjects) : Nat :=
  act.cut.getD ((act.operation.program config registrar name).accesses objects)

/-- What is stored behind some of them. -/
def behind (act : Act) (objects : PromptObjects) (n : Nat) : PromptObjects :=
  (act.operation.program config registrar name).front n objects

/-- All but so many of the accesses are made. -/
def Reaches (act : Act) (objects : PromptObjects) (short : Nat) : Prop :=
  (act.operation.program config registrar name).accesses objects ≤
    act.made config registrar name objects + short

instance (act : Act) (objects : PromptObjects) (short : Nat) :
    Decidable (act.Reaches config registrar name objects short) :=
  inferInstanceAs (Decidable (_ ≤ _))

/-- What becomes live is vouched for, and what is live stays so. -/
def Keeps (act : Act) (objects : PromptObjects) : Prop :=
  match act.operation with
  | .publish request now => act.Reaches config registrar name objects 0 →
      PublishKeeps config registrar name objects request now
  | .setLabel label version _ => act.Reaches config registrar name objects 0 →
      SetLabelKeeps objects label version
  | .recordOptimization request now =>
    ∀ found ∈ recorded config registrar name objects request now,
      (act.Reaches config registrar name objects 2 → RecordKeeps objects found.1) ∧
      (act.Reaches config registrar name objects 0 →
        CandidateKeeps config objects request found.1 found.2)
  | .rebuild arrival _ => act.Reaches config registrar name objects 0 →
      RebuildKeeps config arrival objects

instance : (act : Act) → (objects : PromptObjects) →
    Decidable (act.Keeps config registrar name objects)
  | ⟨.publish _ _, _⟩, _ => inferInstanceAs (Decidable (_ → _))
  | ⟨.setLabel _ _ _, _⟩, _ => inferInstanceAs (Decidable (_ → _))
  | ⟨.recordOptimization request now, _⟩, objects => inferInstanceAs (Decidable
      (∀ found ∈ recorded config registrar name objects request now, (_ → _) ∧ (_ → _)))
  | ⟨.rebuild _ _, _⟩, _ => inferInstanceAs (Decidable (_ → _))

end Act

/-- The operations of a run, one after the other. -/
def registry : Machine PromptObjects Act Unit where
  step objects act :=
    some ([], act.behind config registrar name objects (act.made config registrar name objects))

end

/-- **An operation** keeps what is read vouched for, at each of its accesses. -/
theorem Sound.behind (h : Sound objects) {act : Act}
    (hkeeps : act.Keeps config registrar name objects) {n : Nat}
    (hn : n ≤ act.made config registrar name objects) :
    Sound (act.behind config registrar name objects n) := by
  unfold Act.Keeps at hkeeps
  unfold Act.behind
  have hreaches : ∀ short, (act.operation.program config registrar name).accesses objects ≤
      n + short → act.Reaches config registrar name objects short :=
    fun short hshort => hshort.trans (Nat.add_le_add_right hn short)
  obtain ⟨operation, cut⟩ := act
  cases operation with
  | publish request now =>
    rw [Operation.program, front_map]
    exact h.publish request now n fun hwhole =>
      hkeeps (hreaches 0 (by simpa [Operation.program] using hwhole))
  | setLabel label version now =>
    rw [Operation.program, front_map]
    exact h.setLabel label version now n fun hwhole =>
      hkeeps (hreaches 0 (by simpa [Operation.program] using hwhole))
  | recordOptimization request now =>
    rw [Operation.program, front_map]
    refine h.recordOptimization request now n fun found hfound => ⟨fun hwritten => ?_,
      fun hwhole => ?_⟩
    · exact (hkeeps found hfound).1 (hreaches 2 (by simpa [Operation.program] using hwritten))
    · exact (hkeeps found hfound).2 (hreaches 0 (by simpa [Operation.program] using hwhole))
  | rebuild arrival now =>
    rw [Operation.program, front_map]
    exact h.rebuild arrival now n fun hwhole =>
      hkeeps (hreaches 0 (by simpa [Operation.program] using hwhole))

variable {version : PromptVersion}

theorem resolve_ok {label : Option String} (h : ((resolve name label).run objects).1 = .ok version)
    : ∃ head id,
      objects.head = some head ∧ label.elim head.current (head.labels[·]?) = some id ∧
        objects.versions[id]? = some version := by
  unfold resolve at h
  rw [run_bind, run_read] at h
  cases hhead : objects.head with
  | none => simp [hhead] at h
  | some head =>
    rw [hhead] at h
    dsimp only at h
    cases hid : label.elim head.current (head.labels[·]?) with
    | none => simp [hid] at h
    | some id =>
      rw [hid] at h
      dsimp only [readVersion] at h
      rw [run_bind, run_read] at h
      cases hversion : objects.versions[id]? with
      | none => simp [hversion] at h
      | some stored =>
        rw [hversion] at h
        cases Except.ok.inj h
        exact ⟨head, id, rfl, hid, hversion⟩

theorem Sound.resolve (h : Sound objects) {label : Option String}
    (hlabel : label = none ∨ label = some PRODUCTION_LABEL)
    (hread : ((resolve name label).run objects).1 = .ok version) : Vouched objects version := by
  obtain ⟨head, id, hhead, hid, hversion⟩ := resolve_ok hread
  refine h.vouched head hhead id ?_ version hversion
  rcases hlabel with rfl | rfl
  · exact hid
  · rw [PromptHead.current, show head.labels[PRODUCTION_LABEL]? = some id from hid]
    rfl

theorem Vouched.exists_record (h : Vouched objects version) {optimizationId algorithm : String}
    (horigin : version.origin = .optimized optimizationId algorithm) :
    ∃ record, objects.optimizations[optimizationId]? = some record ∧
      record.candidate = version.versionId ∧ record.outcome = .admitted := by
  simp only [Vouched, horigin, Option.any_eq_true] at h
  obtain ⟨record, hrecord, hadmits⟩ := h
  exact ⟨record, hrecord, by simpa using hadmits⟩

/-- A version of an optimisation that a deployment reads was admitted by that optimisation. -/
def LiveAdmitted (name : String) (objects : PromptObjects) : Prop :=
  ∀ label, label = none ∨ label = some PRODUCTION_LABEL → ∀ version,
    ((resolve name label).run objects).1 = .ok version →
      ∀ optimizationId algorithm, version.origin = .optimized optimizationId algorithm →
        ∃ record, objects.optimizations[optimizationId]? = some record ∧
          record.candidate = version.versionId ∧ record.outcome = .admitted

/-- **What is live was admitted**, at every access of a run whose operations all keep it so. -/
theorem live_admitted (config : RegistryConfig) (registrar : Registrar) (name : String)
    (acts : List Act)
    (hkeeps : ∀ step ∈ (registry config registrar name).run {} acts,
      step.input.Keeps config registrar name step.before) :
    ∀ step ∈ (registry config registrar name).run {} acts,
      ∀ n ≤ step.input.made config registrar name step.before,
        LiveAdmitted name (step.input.behind config registrar name step.before n) := by
  intro step hstep n hn label hlabel version hread optimizationId algorithm horigin
  have hsound := (Machine.inv_of_mem_run Sound
    (fun objects act => act.Keeps config registrar name objects)
    (fun objects act out after h hkept hafter => by
      cases hafter
      exact h.behind hkept le_rfl) sound_new hkeeps step hstep).1
  exact ((hsound.behind (hkeeps step hstep) hn).resolve hlabel hread).exists_record horigin

/-! ## Two runs -/

/-- The digests and the differences of the runs below. -/
def tabled : Registrar where
  versionId text :=
    if text = "Answer." then "6afada2c7cf0c995a7d41aa7a54b4944ceff6c2e5a001f47ac19f78baabf54a7"
    else if text = "Answer briefly." then
      "e68562472088cf0fec6124d5268608b01b1e248afb408e748738d39c6352d169"
    else "62b97596f25eab6a67653982f086a4bb4bea4346e288bad6ac92ae36af480360"
  digest _ := "5cd1f4a8c1a4b0f96b1e"
  sub a b :=
    -- three quarters and a half
    if a = 0x3FE8000000000000 ∧ b = 0x3FE0000000000000 then 0x3FD0000000000000
    else if a = 0x3FE0000000000000 ∧ b = 0x3FE8000000000000 then 0xBFD0000000000000
    else 0
  aboveNoise delta := 0x3D719799812DEA11 < delta ∧ delta ≤ 0x7FF0000000000000

/-- The score of a candidate that goes from the one to the other. -/
def scored (baseline candidate : Double) : List Score := [⟨"accuracy", baseline, candidate⟩]

/-- An optimisation of "Answer." under a chosen id. -/
def optimizing (optimizationId candidateText : String) (test : List Score) (promote : Bool) :
    OptimizationRequest where
  optimizationId
  algorithm := "gepa"
  baseline := tabled.versionId "Answer."
  candidateText
  primaryMetric := "accuracy"
  test
  promote

/-- A prompt that is published live, improved, and rebuilt, with a rejected candidate beside it and
an optimisation that dies behind its record. -/
def tended : List Act :=
  [⟨.publish { text := "Answer.", label := some PRODUCTION_LABEL } 1, none⟩,
    ⟨.recordOptimization (optimizing "opt-1" "Answer briefly."
      (scored 0x3FE8000000000000 0x3FE0000000000000) true) 2, none⟩,
    ⟨.recordOptimization (optimizing "opt-2" "Answer in one line."
      (scored 0x3FE0000000000000 0x3FE8000000000000) true) 3, some 4⟩,
    ⟨.recordOptimization (optimizing "opt-2" "Answer in one line."
      (scored 0x3FE0000000000000 0x3FE8000000000000) true) 4, none⟩,
    ⟨.setLabel "staging" (tabled.versionId "Answer briefly.") 5, none⟩,
    ⟨.rebuild ⟨id, fun _ => .rfl⟩ 6, none⟩]

theorem live_admitted_tended : tended.length = 6 ∧
    ∀ step ∈ (registry {} tabled "assistant").run {} tended,
      ∀ n ≤ step.input.made {} tabled "assistant" step.before,
        LiveAdmitted "assistant" (step.input.behind {} tabled "assistant" step.before n) :=
  ⟨rfl, live_admitted {} tabled "assistant" tended (by decide +kernel)⟩

/-- A rejected candidate whose text is optimised again. -/
def reoptimized : List Act :=
  [⟨.publish { text := "Answer.", label := some PRODUCTION_LABEL } 1, none⟩,
    ⟨.recordOptimization (optimizing "opt-1" "Answer briefly."
      (scored 0x3FE8000000000000 0x3FE0000000000000) false) 2, none⟩,
    ⟨.recordOptimization (optimizing "opt-2" "Answer briefly."
      (scored 0x3FE0000000000000 0x3FE8000000000000) true) 3, none⟩]

/-- **A rejected candidate is live**: the optimisation it is filed under turned it down, and a later
one of the same text promoted it. -/
theorem reoptimized_live : (∀ act ∈ reoptimized, act.cut = none) ∧
    ¬ LiveAdmitted "assistant" ((registry {} tabled "assistant").last {} reoptimized) := by
  refine ⟨by decide, fun h => ?_⟩
  have hread : ((resolve "assistant" none).run ((registry {} tabled "assistant").last {}
      reoptimized)).1.toOption.map (·.origin) = some (.optimized "opt-1" "gepa") := by
    decide +kernel
  have hturned : (((registry {} tabled "assistant").last {} reoptimized).optimizations[
      "opt-1"]?).map (·.outcome) = some .rejected := by decide +kernel
  cases hresolved : ((resolve "assistant" none).run
      ((registry {} tabled "assistant").last {} reoptimized)).1 with
  | error error => simp [hresolved, Except.toOption] at hread
  | ok version =>
    rw [hresolved] at hread
    obtain ⟨record, hrecord, -, hadmitted⟩ := h none (.inl rfl) version hresolved "opt-1" "gepa"
      (Option.some.inj hread)
    rw [hrecord, Option.map_some, hadmitted] at hturned
    cases hturned

end Aiwatcher.Prompts
