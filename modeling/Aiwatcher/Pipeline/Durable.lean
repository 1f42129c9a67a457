import Aiwatcher.Pipeline.Projector

/-!
# Aiwatcher.Pipeline.Durable

A committed checkpoint covers only durable output: which spans are kept when the projector
commits, and which attempts at a write are repeated.

A flush takes the spans out of `pending` and puts none back, so the spans of a flush that comes
to `unavailable`, or to a refusal the dead letters do not take, are neither written again nor in
the way of the next commit (`commits_past_lost_spans`).
-/

namespace Aiwatcher.Pipeline

open Library Trace List Projector

/-! ## What is promised -/

/-- The trace store has accepted a span, or it is parked. -/
def Kept (told : List Output) (span : CompletedSpan) : Prop :=
  ∃ batch, span ∈ batch ∧ (.attempted batch .accepted ∈ told ∨ .parked batch ∈ told)

/-- What a projector that told so much promises. -/
structure Durable (told : List Output) : Prop where
  /-- A checkpoint is committed when the spans finished at or before it are kept. -/
  covered : ∀ before checkpoint, before ++ [.committed checkpoint] <+: told →
    ∀ at' spans, .finished at' spans ∈ before → at' ≤ checkpoint → ∀ span ∈ spans,
      Kept before span
  /-- A write that failed for now is repeated, or nothing is committed after it. -/
  retried : ∀ before spans after, told = before ++ .attempted spans .unavailable :: after →
    (∃ batch answer, (∀ span ∈ spans, span ∈ batch) ∧ .attempted batch answer ∈ after) ∨
      ∀ checkpoint, .committed checkpoint ∉ after

/-- The write of a flush ends with the spans accepted, or refused for good and parked. -/
def settles (config : ProjectorConfig) (answers : Answers) : Bool :=
  match (Projector.writeSpans config answers).getLastD .accepted with
  | .accepted => true
  | .rejected => answers.parks
  | .unavailable => false

/-- Where a turn of the loop flushes spans, their write settles. -/
def Settles (config : ProjectorConfig) (floats : Floats) (projector : Projector) (reason : Wake) :
    Prop :=
  ∀ answers, (projector.takeIn config floats reason).2.flushes config reason = some answers →
    (projector.takeIn config floats reason).2.pending.spans ≠ [] → settles config answers = true

/-! ## Attempts -/

/-- Every attempt that failed for now is followed by another at the same spans. -/
def Retried : List Output → Prop
  | [] => True
  | output :: rest =>
    (∀ spans, output = .attempted spans .unavailable →
      ∃ answer, .attempted spans answer ∈ rest) ∧ Retried rest

theorem Retried.append {told out : List Output} (htold : Retried told) (hout : Retried out) :
    Retried (told ++ out) := by
  induction told with
  | nil => exact hout
  | cons output told ih =>
    constructor
    · intro spans heq
      obtain ⟨answer, hmem⟩ := htold.1 spans heq
      exact ⟨answer, mem_append_left _ hmem⟩
    · exact ih htold.2

theorem retried_of_settled {out : List Output}
    (h : ∀ spans, .attempted spans .unavailable ∉ out) : Retried out := by
  induction out with
  | nil => trivial
  | cons output out ih =>
    constructor
    · intro spans heq
      exact absurd (heq ▸ mem_cons_self) (h spans)
    · exact ih fun spans hmem => h spans (mem_cons_of_mem _ hmem)

theorem Retried.split {before after : List Output} {spans : List CompletedSpan}
    (h : Retried (before ++ .attempted spans .unavailable :: after)) :
    ∃ answer, .attempted spans answer ∈ after := by
  induction before with
  | nil => exact h.1 spans rfl
  | cons output before ih => exact ih h.2

theorem withBackoff_ne_nil (answer : Nat → WriteAnswer) (left attempt : Nat) :
    withBackoff answer left attempt ≠ [] := by
  cases left with
  | zero => simp [withBackoff]
  | succ left =>
    unfold withBackoff
    split <;> simp

/-- A write is tried again until it comes to something else than `unavailable`. -/
theorem retried_withBackoff {answer : Nat → WriteAnswer} (spans : List CompletedSpan)
    {left attempt : Nat}
    (h : (withBackoff answer left attempt).getLastD .accepted ≠ .unavailable) :
    Retried ((withBackoff answer left attempt).map (.attempted spans)) := by
  induction left generalizing attempt with
  | zero =>
    apply retried_of_settled
    simpa [withBackoff, eq_comm] using h
  | succ left ih =>
    unfold withBackoff at h ⊢
    split
    · rename_i hagain
      rw [if_pos hagain] at h
      obtain ⟨first, rest, hrest⟩ :=
        exists_cons_of_ne_nil (withBackoff_ne_nil answer left (attempt + 1))
      constructor
      · intro others heq
        obtain ⟨rfl, -⟩ := Output.attempted.inj heq
        rw [hrest]
        exact ⟨first, by simp⟩
      · apply ih
        rw [hrest] at h ⊢
        simpa using h
    · rename_i hsettled
      apply retried_of_settled
      simpa [eq_comm] using hsettled

/-! ## Commits -/

/-- Every span finished so far is kept. -/
def AllKept (told : List Output) : Prop :=
  ∀ at' spans, .finished at' spans ∈ told → ∀ span ∈ spans, Kept told span

/-- Every commit finds every span finished before it kept. -/
def Covered (told : List Output) : Prop :=
  ∀ before checkpoint, before ++ [.committed checkpoint] <+: told → AllKept before

theorem Kept.append {told : List Output} {span : CompletedSpan} (h : Kept told span)
    (out : List Output) : Kept (told ++ out) span := by
  obtain ⟨batch, hmem, hkept⟩ := h
  exact ⟨batch, hmem, hkept.imp (mem_append_left _) (mem_append_left _)⟩

theorem Covered.append {told out : List Output} (h : Covered told)
    (hout : ∀ checkpoint, .committed checkpoint ∉ out) : Covered (told ++ out) := by
  intro before checkpoint hprefix
  obtain ⟨rest, hrest⟩ := hprefix
  rcases append_eq_append_iff.mp hrest with ⟨more, htold, -⟩ | ⟨more, hmore, rfl⟩
  · exact h before checkpoint ⟨more, htold.symm⟩
  · rcases eq_nil_or_concat more with rfl | ⟨front, output, rfl⟩
    · exact h before checkpoint ⟨[], by simpa using hmore⟩
    · -- the commit would be one of the outputs
      have hlast := congrArg List.getLast? hmore
      simp only [concat_eq_append, ← append_assoc, getLast?_concat, Option.some.injEq] at hlast
      exact absurd (by simp [hlast]) (hout checkpoint)

theorem Covered.commit {told : List Output} (h : Covered told) (hall : AllKept told)
    (checkpoint : Checkpoint) : Covered (told ++ [.committed checkpoint]) := by
  intro before other hprefix
  rcases prefix_concat_iff.mp hprefix with heq | hprefix
  · rw [← (append_inj' heq rfl).1] at hall
    exact hall
  · exact h before other hprefix

/-! ## A turn of the loop -/

/-- What is told is covered and retried, and a finished span that is not kept still waits. -/
structure Holding (told : List Output) (projector : Projector) : Prop where
  covered : Covered told
  retried : Retried told
  waits : ∀ at' spans, .finished at' spans ∈ told → ∀ span ∈ spans,
    Kept told span ∨ span ∈ projector.pending.spans

namespace Holding

variable {config : ProjectorConfig} {floats : Floats} {told out : List Output}
  {projector after : Projector} {reason : Wake} {answers : Answers}

/-- Outputs that write and commit nothing, and leave the spans they finish waiting. -/
theorem append (h : Holding told projector) (hcommit : ∀ checkpoint, .committed checkpoint ∉ out)
    (hattempt : ∀ spans, .attempted spans .unavailable ∉ out)
    (hwaits : ∀ span ∈ projector.pending.spans, span ∈ after.pending.spans)
    (hfinished : ∀ at' spans, .finished at' spans ∈ out → ∀ span ∈ spans,
      span ∈ after.pending.spans) : Holding (told ++ out) after where
  covered := h.covered.append hcommit
  retried := h.retried.append (retried_of_settled hattempt)
  waits at' spans hmem span hspan := by
    rcases mem_append.mp hmem with hmem | hmem
    · exact (h.waits at' spans hmem span hspan).imp (·.append out) (hwaits span)
    · exact .inr (hfinished at' spans hmem span hspan)

/-- Before it flushes, the loop only lets spans wait. -/
theorem takeIn (h : Holding told projector) :
    Holding (told ++ (projector.takeIn config floats reason).1)
      (projector.takeIn config floats reason).2 := by
  cases reason with
  | event event answers =>
    simp only [takeIn, handle]
    split
    · apply h.append <;> simp +contextual [buffer]
    · apply h.append <;> simp +contextual
  | caughtUp checkpoint answers =>
    simp only [takeIn]
    split <;> exact h.append (by simp) (by simp) (by simp) (by simp)
  | ended answers => apply h.append <;> simp +contextual [takeIn]
  | flushTimer answers => apply h.append <;> simp +contextual [takeIn]
  | sweepTimer now order =>
    apply h.append <;> simp +contextual [takeIn, buffer]
  | shutdown order answers =>
    apply h.append <;> simp +contextual [takeIn, buffer]

theorem written (hsettles : projector.pending.spans ≠ [] → settles config answers = true) :
    ∀ attempts result, attempts = (if projector.pending.spans.isEmpty then []
        else writeSpans config answers) →
      result = attempts.getLastD .accepted →
      Retried (attempts.map (.attempted projector.pending.spans)) ∧
        ∀ span ∈ projector.pending.spans,
          Kept (attempts.map (.attempted projector.pending.spans) ++
            parkSpans projector.pending.spans answers result) span := by
  rintro attempts result hattempts rfl
  by_cases hempty : projector.pending.spans = []
  · simp [hattempts, hempty, Retried]
  · have hsettled := hsettles hempty
    rw [if_neg (by simpa using hempty)] at hattempts
    subst hattempts
    have hne : writeSpans config answers ≠ [] := withBackoff_ne_nil _ _ _
    have hlast : (writeSpans config answers).getLastD .accepted ∈
        writeSpans config answers := by
      rw [getLastD_eq_getLast?, getLast?_eq_getLast_of_ne_nil hne]
      exact getLast_mem hne
    unfold settles at hsettled
    constructor
    · apply retried_withBackoff
      intro hunavailable
      rw [writeSpans, hunavailable] at hsettled
      cases hsettled
    · intro span hspan
      refine ⟨projector.pending.spans, hspan, ?_⟩
      split at hsettled
      · rename_i haccepted
        rw [haccepted] at hlast
        exact .inl (mem_append_left _ (mem_map_of_mem hlast))
      · rename_i hrejected
        rw [parkSpans, hrejected]
        right
        apply mem_append_right
        simp [hsettled]
      · cases hsettled

theorem flush (h : Holding told projector)
    (hsettles : projector.pending.spans ≠ [] → settles config answers = true) :
    Holding (told ++ (projector.flush config answers).1) (projector.flush config answers).2 := by
  obtain ⟨hretried, hkept⟩ := written hsettles _ _ rfl rfl
  simp only [Projector.flush]
  generalize (if projector.pending.spans.isEmpty then []
    else writeSpans config answers) = attempts at hretried hkept ⊢
  generalize attempts.getLastD .accepted = result at hkept ⊢
  generalize (projector.pending.checkpoint.filter fun _ =>
    !decide (result ≠ .accepted) && answers.periodsWritten && answers.saves) = checkpoint
  set wrote := attempts.map (Output.attempted projector.pending.spans) ++
    parkSpans projector.pending.spans answers result with hwrote
  have hcommits : ∀ checkpoint, Output.committed checkpoint ∉ wrote := by
    simp [hwrote, parkSpans]
  have hparked : Retried (parkSpans projector.pending.spans answers result) :=
    retried_of_settled (by simp [parkSpans])
  have hcovered := h.covered.append hcommits
  have hretried := h.retried.append (hretried.append hparked)
  have hall : AllKept (told ++ wrote) := by
    intro at' spans hmem span hspan
    have hmem : .finished at' spans ∈ told := by
      simpa [hwrote, parkSpans] using hmem
    rcases h.waits at' spans hmem span hspan with hkept' | hwaits
    · exact hkept'.append _
    · obtain ⟨batch, hspan, hbatch⟩ := hkept span hwaits
      exact ⟨batch, hspan, hbatch.imp (mem_append_right _) (mem_append_right _)⟩
  cases checkpoint with
  | none =>
    rw [Option.toList_none, map_nil, append_nil]
    exact ⟨hcovered, hretried, fun at' spans hmem span hspan =>
      .inl (hall at' spans hmem span hspan)⟩
  | some checkpoint =>
    simp only [Option.toList_some, map_cons, map_nil, ← append_assoc told]
    refine ⟨hcovered.commit hall checkpoint, hretried.append (retried_of_settled (by simp)), ?_⟩
    intro at' spans hmem span hspan
    have hmem : .finished at' spans ∈ told ++ wrote := by simpa using hmem
    exact .inl ((hall at' spans hmem span hspan).append _)

theorem wake (h : Holding told projector) (hsettles : Settles config floats projector reason) :
    Holding (told ++ (projector.wake config floats reason).1)
      (projector.wake config floats reason).2 := by
  have htaken : Holding (told ++ (projector.takeIn config floats reason).1)
      (projector.takeIn config floats reason).2 := h.takeIn
  unfold Settles at hsettles
  unfold Projector.wake
  generalize projector.takeIn config floats reason = taken at htaken hsettles ⊢
  dsimp only
  cases hflush : taken.2.flushes config reason with
  | none => exact htaken
  | some answers =>
    rw [← append_assoc]
    exact htaken.flush fun hspans => hsettles answers hflush hspans

end Holding

/-! ## Runs -/

/-- **A committed checkpoint covers only durable output**, in every run whose writes settle. -/
theorem checkpoints_durable_when (config : ProjectorConfig) (floats : Floats) (reasons : List Wake)
    (hsettles : ∀ st ∈ (projecting config floats).run (.new config) reasons,
      Settles config floats st.before st.input) :
    Durable ((projecting config floats).emitted (.new config) reasons) := by
  have hnew : Holding [] (.new config) :=
    ⟨fun _ _ hprefix => by simp at hprefix, trivial, fun _ _ hmem => by simp at hmem⟩
  have hrun := Machine.accum_run (M := projecting config floats) Holding (Settles config floats)
    (fun told projector reason out after h hadmits hstep => by
      simp only [projecting] at hstep
      split at hstep
      · have hwake := h.wake hadmits
        rwa [Option.some.inj hstep] at hwake
      · cases hstep) hnew hsettles
  rw [List.nil_append] at hrun
  constructor
  · intro before checkpoint hprefix at' spans hmem _ span hspan
    exact hrun.covered before checkpoint hprefix at' spans hmem span hspan
  · intro before spans after htold
    have hretried := hrun.retried
    rw [htold] at hretried
    obtain ⟨answer, hmem⟩ := hretried.split
    exact .inl ⟨spans, answer, fun _ h => h, hmem⟩

/-! ## Spans that are lost -/

/-- An event of a call, with an empty payload. -/
def callEvent (eventType : EventType) (position : UInt64) (id : String) : RecordedEvent where
  eventType := eventType
  data := .object []
  metadata := ⟨id, "run:run-1", position, 1, 7, none, "", "", "run-1", none, none, none, none,
    none, none, none, none, none, none, "", 1, ⟨"service", none, "rust", none⟩, 1, 1⟩

def plainProjector : ProjectorConfig := ⟨128, 50000, 5, ⟨Duration.seconds 900, 3, true⟩⟩

def noFloats : Floats := ⟨fun n => n, fun n => n.toUInt64, fun _ => none, fun _ => 0⟩

/-- The trace store answers one thing, and everything else goes well. -/
def answering (answer : WriteAnswer) : Answers := ⟨fun _ => answer, true, true, true⟩

/-- The trace store is away for one flush, and back for the next. -/
def awayOnce : List Wake :=
  [.event (callEvent .llmStarted 1 "a") (answering .accepted),
    .event (callEvent .llmCompleted 2 "b") (answering .accepted),
    .flushTimer (answering .unavailable),
    .event (callEvent .llmStarted 3 "c") (answering .accepted),
    .flushTimer (answering .accepted)]

/-- The flush after the one that failed commits past spans that nobody has. -/
theorem commits_past_lost_spans :
    ¬ Durable ((projecting plainProjector noFloats).emitted (.new plainProjector) awayOnce) := by
  intro h
  generalize htold : (projecting plainProjector noFloats).emitted (.new plainProjector) awayOnce =
    told at h
  have hlast : told = told.dropLast ++ [.committed 3] := by subst htold; decide +kernel
  have hfinished : (told.dropLast.any fun output => match output with
      | .finished at' spans => at' ≤ 3 && !spans.isEmpty
      | _ => false) = true := by subst htold; decide +kernel
  have hlost : (told.dropLast.any fun output => match output with
      | .attempted _ .accepted | .parked _ => true
      | _ => false) = false := by subst htold; decide +kernel
  obtain ⟨output, hmem, houtput⟩ := List.any_eq_true.mp hfinished
  cases output with
  | finished at' spans =>
    simp only [Bool.and_eq_true, decide_eq_true_eq, Bool.not_eq_eq_eq_not, Bool.not_true,
      List.isEmpty_eq_false_iff] at houtput
    obtain ⟨span, rest, rfl⟩ := List.exists_cons_of_ne_nil houtput.2
    obtain ⟨batch, -, hkept⟩ := h.covered told.dropLast 3 ⟨[], by rw [List.append_nil, ← hlast]⟩ at'
      _ hmem houtput.1 span List.mem_cons_self
    rw [List.any_eq_false] at hlost
    rcases hkept with hkept | hkept
    · exact hlost _ hkept rfl
    · exact hlost _ hkept rfl
  | attempted spans answer => cases houtput
  | parked spans => cases houtput
  | committed checkpoint => cases houtput

/-- The trace store fails for now and then takes the batch. -/
def secondAttempt : Answers :=
  ⟨fun attempt => if attempt = 1 then .unavailable else .accepted, true, true, true⟩

theorem secondAttempt_durable :
    Durable ((projecting plainProjector noFloats).emitted (.new plainProjector)
      [.event (callEvent .llmStarted 1 "a") secondAttempt,
        .event (callEvent .llmCompleted 2 "b") secondAttempt, .flushTimer secondAttempt]) := by
  apply checkpoints_durable_when
  intro st hst
  have hanswers : ∀ answers, (Projector.takeIn plainProjector noFloats st.before st.input).2.flushes
      plainProjector st.input = some answers → answers = secondAttempt := by
    have hinput := Machine.input_mem_of_mem_run hst
    simp only [List.mem_cons, List.not_mem_nil, or_false] at hinput
    rcases hinput with hinput | hinput | hinput <;>
      · rw [hinput]
        intro answers hflush
        simp only [Projector.flushes] at hflush
        split at hflush <;> cases hflush
        rfl
  intro answers hflush _
  rw [hanswers answers hflush]
  decide

end Aiwatcher.Pipeline
