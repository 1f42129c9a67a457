import Aiwatcher.Workflows.Seen

/-!
# Aiwatcher.Workflows.Refold

An event folded into its execution: one more that the execution has seen (`Seen.fold`), and
nothing new where the execution saw it before (`Seen.unmoved`).
-/

namespace Aiwatcher.Workflows

open Library Option Table List Std Held

/-! ## What every event says -/

namespace Held

variable {maxNodes : Nat} {held : Held} {events : List RecordedEvent}

/-- An execution that started by some moment. -/
def startedBy (held : Held) (at' : OffsetDateTime) : Held :=
  { held with summary := { held.summary with startedAt := min held.summary.startedAt at' } }

theorem startedBy_of_le {at' : OffsetDateTime} (h : held.summary.startedAt ≤ at') :
    held.startedBy at' = held := by
  unfold startedBy
  rw [min_eq_left h]

theorem Told.startedBy (h : held.Told maxNodes events) (at' : OffsetDateTime) :
    (held.startedBy at').Told maxNodes events where
  started event hevent := Int.le_trans (Int.min_le_left _ _) (h.started event hevent)
  managed := h.managed
  runs := ⟨h.runs.started, h.runs.ended, h.runs.apart, h.runs.failed⟩
  steps := ⟨h.steps.roomed, h.steps.counted, h.steps.stands⟩

theorem noteAgent_summary (maxNodes : Nat) (held : Held) (agent : String) :
    Undisturbed maxNodes held (held.noteAgent agent) ∧
      (held.noteAgent agent).summary.endedAt = held.summary.endedAt ∧
      (held.noteAgent agent).summary.status = held.summary.status := by
  unfold noteAgent
  split
  · exact ⟨⟨rfl, rfl, rfl, rfl, fun _ => rfl, fun _ => rfl, .rfl' _,
      fun _ hnew hn => absurd hn hnew, Nat.le_refl _⟩, rfl, rfl⟩
  · exact ⟨.rfl' _, rfl, rfl⟩

/-- An event says when its execution started, and no more of where it stands. -/
theorem undisturbed_noteEvent (maxNodes : Nat) (held : Held) (event : RecordedEvent) :
    Undisturbed maxNodes (held.startedBy event.metadata.occurredAt) (held.noteEvent event) ∧
      (held.noteEvent event).summary.endedAt = held.summary.endedAt ∧
      (held.noteEvent event).summary.status = held.summary.status := by
  unfold noteEvent
  cases event.metadata.agentId with
  | none =>
    exact ⟨⟨rfl, rfl, rfl, rfl, fun _ => rfl, fun _ => rfl, .rfl' _,
      fun _ hnew hn => absurd hn hnew, Nat.le_refl _⟩, rfl, rfl⟩
  | some agent =>
    dsimp only [elim_some]
    obtain ⟨hagent, hended⟩ := noteAgent_summary maxNodes { held with
      summary := { held.summary with
        lastActivityAt := max held.summary.lastActivityAt event.metadata.occurredAt
        startedAt := min held.summary.startedAt event.metadata.occurredAt } } agent
    exact ⟨⟨hagent.managed, hagent.started, hagent.openRuns, hagent.finishedRuns,
      hagent.attempts, hagent.error, hagent.nodes, hagent.grows, hagent.size⟩, hended⟩

theorem Told.noteEvent (h : held.Told maxNodes events) (event : RecordedEvent) :
    (held.noteEvent event).Told maxNodes events ∧
      (held.noteEvent event).summary.startedAt ≤ event.metadata.occurredAt := by
  obtain ⟨hnoted, -⟩ := undisturbed_noteEvent maxNodes held event
  refine ⟨(h.startedBy _).undisturbed hnoted, ?_⟩
  rw [hnoted.started]
  exact Int.min_le_right _ _

end Held

/-! ## One event more -/

variable {event : RecordedEvent} {events : List RecordedEvent} {held : Held}

/-- What is known of the runs of an execution that knows no less, and what it knows of an event. -/
theorem RunsTold.extend {held now : Held} (h : RunsTold held events)
    (hopen : ∀ runId ∈ held.openRuns, runId ∈ now.openRuns ∨ runId ∈ now.finishedRuns)
    (hfinished : ∀ runId ∈ held.finishedRuns, runId ∈ now.finishedRuns)
    (herror : held.managed.isSome = true ∨ held.summary.error.isSome = true →
      now.managed.isSome = true ∨ now.summary.error.isSome = true)
    (hapart : ∀ runId ∈ now.finishedRuns, runId ∉ now.openRuns)
    (hstart : event.eventType.subject = .run → event.eventType.phase = some .start →
      event.metadata.runId ∈ now.openRuns ∨ event.metadata.runId ∈ now.finishedRuns)
    (hended : ∀ ok, event.eventType.subject = .run → event.eventType.phase = some (.ended ok) →
      event.metadata.runId ∈ now.finishedRuns ∧ (ok = false → now.summary.error.isSome = true)) :
    RunsTold now (events ++ [event]) := by
  refine ⟨?_, ?_, hapart, ?_⟩
  · intro other hother hrun hphase
    rcases mem_append.mp hother with hother | hother
    · rcases h.started other hother hrun hphase with hmem | hmem
      · exact hopen _ hmem
      · exact .inr (hfinished _ hmem)
    · cases mem_singleton.mp hother
      exact hstart hrun hphase
  · intro other hother ok hrun hphase
    rcases mem_append.mp hother with hother | hother
    · exact hfinished _ (h.ended other hother ok hrun hphase)
    · cases mem_singleton.mp hother
      exact (hended ok hrun hphase).1
  · intro other hother hrun hphase
    rcases mem_append.mp hother with hother | hother
    · exact herror (h.failed other hother hrun hphase)
    · cases mem_singleton.mp hother
      exact .inr ((hended false hrun hphase).2 rfl)

theorem RunsTold.append (h : RunsTold held events) (hrun : event.eventType.subject ≠ .run) :
    RunsTold held (events ++ [event]) :=
  h.extend (fun _ hmem => .inl hmem) (fun _ hmem => hmem) id h.apart
    (fun hsubject => absurd hsubject hrun) fun _ hsubject => absurd hsubject hrun

theorem lastStep_append (n : String) (events : List RecordedEvent) (event : RecordedEvent) :
    lastStep n (events ++ [event]) = if stepsOn n event then some event else lastStep n events := by
  unfold lastStep
  rw [filter_append]
  by_cases hstep : stepsOn n event = true
  · simp [hstep]
  · simp [hstep]

theorem StepsTold.append {maxNodes : Nat} (h : StepsTold maxNodes held events)
    (hstep : ∀ n, stepsOn n event = false) : StepsTold maxNodes held (events ++ [event]) := by
  have hold : ∀ other ∈ events ++ [event], ∀ n, stepsOn n other = true → other ∈ events := by
    intro other hother n hother'
    rcases mem_append.mp hother with hother | hother
    · exact hother
    · cases mem_singleton.mp hother
      rw [hstep n] at hother'
      cases hother'
  refine ⟨fun other hother n hn => h.roomed other (hold other hother n hn) n hn,
    fun other hother n hn => h.counted other (hold other hother n hn) n hn, ?_⟩
  intro n node hnode last hlast
  rw [lastStep_append, hstep n] at hlast
  exact h.stands n node hnode last hlast

theorem stepsOn_of_subject (h : event.eventType.subject ≠ .step) (n : String) :
    stepsOn n event = false := by
  simp [stepsOn, h]

theorem lifecycleOf_of_subject (h : event.eventType.subject ≠ .execution) :
    lifecycleOf event = none := by
  unfold lifecycleOf
  cases htype : event.eventType <;> first | rfl | simp [htype, EventType.subject] at h

/-! ## Runs -/

theorem RunsTold.applyRun (h : RunsTold held events) (event : RecordedEvent) :
    RunsTold (held.applyRun event) (events ++ [event]) := by
  unfold Held.applyRun
  split
  · rename_i hphase
    have hnotEnd : ∀ ok, event.eventType.phase ≠ some (.ended ok) := by
      intro ok
      rw [hphase]
      simp
    split
    · rename_i hended
      exact h.extend (fun _ hmem => .inl hmem) (fun _ hmem => hmem) id h.apart
        (fun _ _ => .inr (by simpa using hended)) fun ok _ h => absurd h (hnotEnd ok)
    · rename_i hfresh
      refine h.extend (fun _ hmem => .inl (by simp [hmem])) (fun _ hmem => hmem) id ?_
        (fun _ _ => .inl (by simp)) fun ok _ h => absurd h (hnotEnd ok)
      intro runId hended hopen
      simp only [ExtTreeMap.mem_insert, Std.LawfulEqCmp.compare_eq_iff_eq] at hopen
      rcases hopen with rfl | hopen
      · exact hfresh (by simpa using hended)
      · exact h.apart runId hended hopen
  · rename_i ok hphase
    refine h.extend ?_ (fun _ hmem => by simp [hmem]) ?_ ?_ ?_ ?_
    · intro runId hopen
      simp only [ExtTreeMap.mem_insert, ExtTreeMap.mem_erase, ne_eq,
        Std.LawfulEqCmp.compare_eq_iff_eq]
      by_cases hsame : event.metadata.runId = runId
      · exact .inr (.inl hsame)
      · exact .inl ⟨hsame, hopen⟩
    · rintro (hmanaged | herror)
      · exact .inl hmanaged
      · right
        dsimp only
        split
        · rfl
        · exact herror
    · intro runId hended hopen
      simp only [ExtTreeMap.mem_insert, ExtTreeMap.mem_erase, ne_eq,
        Std.LawfulEqCmp.compare_eq_iff_eq] at hended hopen
      exact h.apart runId (hended.resolve_left hopen.1) hopen.2
    · intro _ hstart
      rw [hphase] at hstart
      cases hstart
    · intro ok' _ hended
      cases some.inj (hphase.symm.trans hended)
      refine ⟨by simp, ?_⟩
      rintro rfl
      dsimp only
      split
      · rfl
      · rename_i herror
        simpa [isSome_iff_ne_none] using herror
  · rename_i hnotStart hnotEnd
    exact h.extend (fun _ hmem => .inl hmem) (fun _ hmem => hmem) id h.apart
      (fun _ hstart => absurd hstart hnotStart) fun ok _ hended => absurd hended (hnotEnd ok)

/-! ## Steps -/

namespace Held

variable (held : Held) (nodeId : String) (maxNodes : Nat) (change : NodeState → NodeState)

theorem getElem?_onNode (n : String) : (held.onNode nodeId maxNodes change).nodes[n]? =
    if nodeId = n ∧ held.hasNode nodeId maxNodes = true then
      some (change (held.nodes[nodeId]?.getD (.observed nodeId))) else held.nodes[n]? := by
  unfold onNode hasNode
  split
  · rename_i hthere
    simp [getElem?_entry, hthere]
  · rename_i hnew
    split
    · rename_i hfull
      simp [hnew, Nat.not_lt.mpr hfull]
    · rename_i hroom
      simp [getElem?_entry, Nat.lt_of_not_le hroom]

theorem size_onNode : held.nodes.size ≤ (held.onNode nodeId maxNodes change).nodes.size := by
  unfold onNode
  split
  · dsimp only [Table.entry]
    rw [ExtTreeMap.size_insert]
    split <;> omega
  · split
    · exact Nat.le_refl _
    · dsimp only [Table.entry]
      rw [ExtTreeMap.size_insert]
      split <;> omega

@[simp] theorem attempts_onNode : (held.onNode nodeId maxNodes change).attempts = held.attempts := by
  unfold onNode
  split
  · rfl
  · split <;> rfl

end Held

theorem standsAs_stepNode (counted : Bool) (attempts : Nat) (event : RecordedEvent)
    (node : NodeState) : (stepNode counted attempts event node).StandsAs event := by
  unfold NodeState.StandsAs stepNode
  dsimp only
  split
  · rename_i hphase
    simp only [hphase, startStep]
    split <;> rfl
  · rename_i ok hphase
    simp only [hphase, endStep]
    exact ⟨trivial, trivial, fun hfailed => by simp [hfailed]⟩
  · trivial

theorem started_stepNode (counted : Bool) (attempts : Nat) (event : RecordedEvent)
    (node : NodeState)
    (h : node.startedAt.isSome = true ∨ event.eventType.phase = some .start) :
    (stepNode counted attempts event node).startedAt.isSome = true := by
  have hnoted : (noteStep event node).startedAt = node.startedAt := rfl
  unfold stepNode
  dsimp only
  split
  · have hstarted : (startStep counted attempts event.metadata.occurredAt
        (noteStep event node)).startedAt.isSome = true := by
      unfold startStep
      dsimp only
      rw [hnoted]
      cases node.startedAt <;> split <;> split <;> simp_all
    exact hstarted
  · rename_i hphase
    rw [hphase] at h
    simpa [endStep, hnoted] using h
  · rename_i hphase hother
    exact h.resolve_right hphase

theorem StepsTold.applyStep {config : WorkflowConfig}
    (h : StepsTold config.maxNodesPerExecution held events) (event : RecordedEvent)
    (hsubject : event.eventType.subject = .step) :
    StepsTold config.maxNodesPerExecution (held.applyStep event config) (events ++ [event]) := by
  unfold Held.applyStep
  cases hkey : nodeKey event with
  | none => exact h.append fun n => by simp [stepsOn, hkey]
  | some nodeId =>
    dsimp only
    generalize hseenNow : (if event.eventType.phase = some .start then
      (held.attemptsOf nodeId).insert event.metadata.spanKey () else held.attemptsOf nodeId) =
        seenNow
    generalize (decide (event.eventType.phase = some .start) &&
      !(held.attemptsOf nodeId).contains event.metadata.spanKey) = counted
    generalize min seenNow.size 4294967295 = attempts
    generalize hnow : { held with attempts := held.attempts.insert nodeId seenNow }.onNode nodeId
      config.maxNodesPerExecution (stepNode counted attempts event) = now
    have hnodes : ∀ n, now.nodes[n]? =
        if nodeId = n ∧ held.hasNode nodeId config.maxNodesPerExecution = true then
          some (stepNode counted attempts event
            (held.nodes[nodeId]?.getD (.observed nodeId))) else held.nodes[n]? := by
      intro n
      rw [← hnow, getElem?_onNode]
      rfl
    have hsize : held.nodes.size ≤ now.nodes.size := by
      rw [← hnow]
      exact size_onNode { held with attempts := held.attempts.insert nodeId seenNow } _ _ _
    have hroom : ∀ node, held.nodes[nodeId]? = some node →
        held.hasNode nodeId config.maxNodesPerExecution = true := by
      intro node hnode
      simp [hasNode, ExtTreeMap.contains_eq_isSome_getElem?, hnode]
    have hattempts : ∀ n, now.attemptsOf n =
        if nodeId = n then seenNow else held.attemptsOf n := by
      intro n
      rw [← hnow, attemptsOf, attempts_onNode, Table.getElem?_insert]
      split <;> rfl
    have hseen : ∀ key ∈ held.attemptsOf nodeId, key ∈ seenNow := by
      intro key hkey
      rw [← hseenNow]
      split
      · simp [hkey]
      · exact hkey
    have hon : ∀ n, stepsOn n event = true → nodeId = n := by
      intro n hn
      simp only [stepsOn, hkey, Bool.and_eq_true, decide_eq_true_eq, some.injEq] at hn
      exact hn.2
    refine ⟨?_, ?_, ?_⟩
    · -- a node that is there stays, and one that steps is made where there is room
      intro other hother n hn
      rw [ExtTreeMap.mem_iff_isSome_getElem?, hnodes n]
      rcases mem_append.mp hother with hother | hother
      · split
        · exact .inl rfl
        · rw [← ExtTreeMap.mem_iff_isSome_getElem?]
          exact (h.roomed other hother n hn).imp_right fun hfull => Nat.le_trans hfull hsize
      · cases mem_singleton.mp hother
        cases hon n hn
        by_cases hthere : held.hasNode nodeId config.maxNodesPerExecution = true
        · simp [hthere]
        · right
          simp only [hasNode, Bool.or_eq_true, decide_eq_true_eq, not_or, Nat.not_lt]
            at hthere
          exact Nat.le_trans hthere.2 hsize
    · intro other hother n hn hstart
      rw [hattempts]
      rcases mem_append.mp hother with hother | hother
      · obtain ⟨hmem, hstarted⟩ := h.counted other hother n hn hstart
        refine ⟨?_, fun node hnode => ?_⟩
        · split
          · rename_i hsame
            subst hsame
            exact hseen _ hmem
          · exact hmem
        · rw [hnodes n] at hnode
          split at hnode
          · rename_i hthere
            obtain ⟨rfl, hthere⟩ := hthere
            cases hnode
            refine started_stepNode _ _ _ _ (.inl ?_)
            cases hold : held.nodes[nodeId]? with
            | some old => exact hstarted old hold
            | none =>
              have hnone : nodeId ∉ held.nodes := by
                rw [ExtTreeMap.mem_iff_isSome_getElem?, hold]
                simp
              have hfull := (h.roomed other hother nodeId hn).resolve_left hnone
              simp only [hasNode, ExtTreeMap.contains_eq_isSome_getElem?, hold,
                isSome_none, Bool.false_or, decide_eq_true_eq] at hthere
              exact absurd hthere (Nat.not_lt.mpr hfull)
          · exact hstarted node hnode
      · cases mem_singleton.mp hother
        cases hon n hn
        refine ⟨by simp [← hseenNow, hstart], fun node hnode => ?_⟩
        rw [hnodes nodeId] at hnode
        split at hnode
        · cases hnode
          exact started_stepNode _ _ _ _ (.inr hstart)
        · rename_i hnone
          exact absurd ⟨rfl, hroom node hnode⟩ hnone
    · -- the node that stepped stands as its step left it, and the others as they stood
      intro n node hnode last hlast
      rw [lastStep_append] at hlast
      rw [hnodes n] at hnode
      split at hlast
      · rename_i hn
        cases hlast
        cases hon n hn
        split at hnode
        · cases hnode
          exact standsAs_stepNode _ _ _ _
        · rename_i hnone
          exact absurd ⟨rfl, hroom node hnode⟩ hnone
      · rename_i hn
        have hother : nodeId ≠ n := by
          rintro rfl
          simp [stepsOn, hsubject, hkey] at hn
        rw [if_neg fun hthere => hother hthere.1] at hnode
        exact h.stands n node hnode last hlast

/-! ## What starts, ends and fails nothing -/

namespace Undisturbed

variable {maxNodes : Nat}

theorem onNode {nodeId : String} {change : NodeState → NodeState} (held : Held)
    (hold : ∀ node, held.nodes[nodeId]? = some node → (change node).outcome = node.outcome)
    (hnew : held.nodes[nodeId]? = none → held.nodes.size < maxNodes →
      (change (.observed nodeId)).outcome = untouched) :
    Undisturbed maxNodes held (held.onNode nodeId maxNodes change) := by
  unfold Held.onNode
  split
  · rename_i hthere
    obtain ⟨node, hnode⟩ : ∃ node, held.nodes[nodeId]? = some node := by
      rwa [ExtTreeMap.contains_eq_isSome_getElem?, isSome_iff_exists] at hthere
    refine insert ?_ ?_ rfl rfl rfl rfl rfl fun _ => rfl
    · intro old hold'
      rw [hold']
      exact hold old hold'
    · intro hnone
      rw [hnode] at hnone
      cases hnone
  · rename_i hnew'
    have hnone : held.nodes[nodeId]? = none := by
      rw [ExtTreeMap.contains_eq_isSome_getElem?] at hnew'
      exact not_isSome_iff_eq_none.mp hnew'
    split
    · exact .rfl' held
    · rename_i hroom
      refine insert ?_ ?_ rfl rfl rfl rfl rfl fun _ => rfl
      · intro old hold'
        rw [hnone] at hold'
        cases hold'
      · intro _
        rw [hnone]
        exact ⟨hnew hnone (Nat.lt_of_not_le hroom), Nat.lt_of_not_le hroom⟩

theorem applyArtifact (floats : Floats) (held : Held) (event : RecordedEvent)
    (config : WorkflowConfig) :
    Undisturbed config.maxNodesPerExecution held
        (applyArtifact floats held event config).1 ∧
      (applyArtifact floats held event config).1.summary = held.summary := by
  unfold Held.applyArtifact
  cases uriOf event with
  | none => exact ⟨.rfl' held, rfl⟩
  | some uri =>
    dsimp only
    generalize (nodeKey event).getD "unassigned" ++ "\x1f" ++ uri = key
    split
    · exact ⟨.rfl' held, rfl⟩
    · refine ⟨?_, (onNode_fields _ _ _ _).1⟩
      have hnode : ∀ kept : Held, Undisturbed config.maxNodesPerExecution kept (kept.onNode
          ((nodeKey event).getD "unassigned") config.maxNodesPerExecution fun node =>
            { node with artifacts := node.artifacts ++ [artifactOf floats event uri] }) :=
        fun kept => onNode kept (fun _ _ => rfl) fun _ _ => rfl
      have hmade := hnode { held with artifactUris := held.artifactUris.insert key () }
      exact ⟨hmade.managed, hmade.started, hmade.openRuns, hmade.finishedRuns, hmade.attempts,
        hmade.error, hmade.nodes, hmade.grows, hmade.size⟩

theorem applyMessage (held : Held) (event : RecordedEvent) (config : WorkflowConfig) :
    Undisturbed maxNodes held (held.applyMessage event config).1 ∧
      (held.applyMessage event config).1.summary.endedAt = held.summary.endedAt := by
  unfold Held.applyMessage
  cases endsOf event with
  | none => exact ⟨.rfl' held, rfl⟩
  | some ends =>
    dsimp only
    split
    · exact ⟨.rfl' held, rfl⟩
    · have hsender := noteAgent_summary maxNodes { held with
        messageIds := held.messageIds.insert event.metadata.messageId () } ends.1
      have hrecipient := noteAgent_summary maxNodes
        (({ held with messageIds := held.messageIds.insert event.metadata.messageId () } :
          Held).noteAgent ends.1) ends.2
      have hboth := hsender.1.trans hrecipient.1
      have hended := hrecipient.2.1.trans hsender.2.1
      split
      · exact ⟨⟨hboth.managed, hboth.started, hboth.openRuns, hboth.finishedRuns,
          hboth.attempts, hboth.error, hboth.nodes, hboth.grows, hboth.size⟩, hended⟩
      · exact ⟨⟨hboth.managed, hboth.started, hboth.openRuns, hboth.finishedRuns,
          hboth.attempts, hboth.error, hboth.nodes, hboth.grows, hboth.size⟩, hended⟩

end Undisturbed

/-! ## An event more -/

theorem RunsTold.congr {held now : Held} (h : RunsTold held events)
    (hopen : now.openRuns = held.openRuns) (hfinished : now.finishedRuns = held.finishedRuns)
    (hmanaged : now.managed = held.managed) (herror : now.summary.error = held.summary.error) :
    RunsTold now events := by
  refine ⟨?_, ?_, ?_, ?_⟩
  · rw [hopen, hfinished]
    exact h.started
  · rw [hfinished]
    exact h.ended
  · rw [hopen, hfinished]
    exact h.apart
  · rw [hmanaged, herror]
    exact h.failed

theorem StepsTold.congr {maxNodes : Nat} {held now : Held} (h : StepsTold maxNodes held events)
    (hnodes : now.nodes = held.nodes) (hattempts : now.attempts = held.attempts) :
    StepsTold maxNodes now events := by
  refine ⟨?_, ?_, ?_⟩
  · rw [hnodes]
    exact h.roomed
  · simp only [attemptsOf, hnodes, hattempts]
    exact h.counted
  · rw [hnodes]
    exact h.stands

theorem lastLifecycle_append (events : List RecordedEvent) (event : RecordedEvent) :
    ((events ++ [event]).filterMap lifecycleOf).getLast? =
      (lifecycleOf event).or (events.filterMap lifecycleOf).getLast? := by
  rw [filterMap_append]
  cases hlifecycle : lifecycleOf event with
  | none => simp [hlifecycle]
  | some managed => simp [hlifecycle]

namespace Held

variable {held : Held} {events : List RecordedEvent} (floats : Floats) (config : WorkflowConfig)

theorem applyRun_kept (held : Held) (event : RecordedEvent) :
    (held.applyRun event).managed = held.managed ∧
      (held.applyRun event).summary.startedAt = held.summary.startedAt ∧
      (held.applyRun event).attempts = held.attempts := by
  unfold applyRun
  split
  · split <;> exact ⟨rfl, rfl, rfl⟩
  · exact ⟨rfl, rfl, rfl⟩
  · exact ⟨rfl, rfl, rfl⟩

theorem applyStep_kept (held : Held) (event : RecordedEvent) :
    (held.applyStep event config).managed = held.managed ∧
      (held.applyStep event config).summary = held.summary ∧
      (held.applyStep event config).openRuns = held.openRuns ∧
      (held.applyStep event config).finishedRuns = held.finishedRuns := by
  unfold applyStep onNode
  cases nodeKey event with
  | none => exact ⟨rfl, rfl, rfl, rfl⟩
  | some nodeId =>
    dsimp only
    split
    · exact ⟨rfl, rfl, rfl, rfl⟩
    · split <;> exact ⟨rfl, rfl, rfl, rfl⟩

theorem undisturbed_applyEvent (held : Held) {event : RecordedEvent}
    (hexecution : event.eventType.subject ≠ .execution) (hrun : event.eventType.subject ≠ .run)
    (hstep : event.eventType.subject ≠ .step) :
    Undisturbed config.maxNodesPerExecution held (applyEvent floats config held event).held ∧
      (applyEvent floats config held event).held.summary.endedAt = held.summary.endedAt := by
  unfold applyEvent
  split
  · rename_i hsubject
    exact absurd hsubject hexecution
  · rename_i hsubject
    exact absurd hsubject hrun
  · rename_i hsubject
    exact absurd hsubject hstep
  · split
    · have happlied := Undisturbed.applyArtifact floats held event config
      exact ⟨happlied.1, by rw [happlied.2]⟩
    · exact ⟨.rfl' held, rfl⟩
  · split
    · exact Undisturbed.applyMessage held event config
    · exact ⟨.rfl' held, rfl⟩
  · exact ⟨.rfl' held, rfl⟩

/-- **Execution rule**: what is told of an execution, with an event of it. -/
theorem Told.applyEvent (h : held.Told config.maxNodesPerExecution events) {event : RecordedEvent}
    (hstarted : held.summary.startedAt ≤ event.metadata.occurredAt) :
    (applyEvent floats config held event).held.Told config.maxNodesPerExecution
      (events ++ [event]) := by
  have hstarts : ∀ other ∈ events ++ [event],
      held.summary.startedAt ≤ other.metadata.occurredAt := by
    intro other hother
    rcases mem_append.mp hother with hother | hother
    · exact h.started other hother
    · cases mem_singleton.mp hother
      exact hstarted
  by_cases hexecution : event.eventType.subject = .execution
  · have hrun : event.eventType.subject ≠ .run := by simp [hexecution]
    have hstep : event.eventType.subject ≠ .step := by simp [hexecution]
    simp only [Held.applyEvent, hexecution, applyExecution]
    cases hlifecycle : lifecycleOf event with
    | none =>
      refine ⟨hstarts, ?_, h.runs.append hrun, h.steps.append (stepsOn_of_subject hstep)⟩
      rw [lastLifecycle_append, hlifecycle]
      exact h.managed
    | some managed =>
      refine ⟨hstarts, ?_, ?_, ?_⟩
      · rw [lastLifecycle_append, hlifecycle]
        rfl
      · exact h.runs.extend (fun _ hmem => .inl hmem) (fun _ hmem => hmem) (fun _ => .inl rfl)
          h.runs.apart (fun hsubject => absurd hsubject hrun)
          fun _ hsubject => absurd hsubject hrun
      · exact (h.steps.append (stepsOn_of_subject hstep)).congr rfl rfl
  have hlifecycle : lifecycleOf event = none := lifecycleOf_of_subject hexecution
  have hmanaged : held.managed =
      ((events ++ [event]).filterMap lifecycleOf).getLast? := by
    rw [lastLifecycle_append, hlifecycle]
    exact h.managed
  by_cases hrun : event.eventType.subject = .run
  · have hstep : event.eventType.subject ≠ .step := by simp [hrun]
    obtain ⟨hkept, hstart, hattempts⟩ := applyRun_kept held event
    simp only [Held.applyEvent, hrun]
    refine ⟨?_, hkept.trans hmanaged, h.runs.applyRun event, ?_⟩
    · rw [hstart]
      exact hstarts
    · exact (h.steps.append (stepsOn_of_subject hstep)).congr (applyRun_fields held event).2.2
        hattempts
  by_cases hstep : event.eventType.subject = .step
  · obtain ⟨hkept, hsummary, hopen, hfinished⟩ := applyStep_kept config held event
    simp only [Held.applyEvent, hstep]
    refine ⟨?_, hkept.trans hmanaged, ?_, h.steps.applyStep event hstep⟩
    · rw [hsummary]
      exact hstarts
    · exact (h.runs.append hrun).congr hopen hfinished hkept (by rw [hsummary])
  · have hbefore : held.Told config.maxNodesPerExecution (events ++ [event]) :=
      ⟨hstarts, hmanaged, h.runs.append hrun, h.steps.append (stepsOn_of_subject hstep)⟩
    exact hbefore.undisturbed (undisturbed_applyEvent floats config held hexecution hrun hstep).1

theorem Told.fold (h : held.Told config.maxNodesPerExecution events) (event : RecordedEvent) :
    (held.fold floats config event).held.Seen config.maxNodesPerExecution (events ++ [event]) := by
  obtain ⟨hnoted, hstarted⟩ := h.noteEvent event
  exact (hnoted.applyEvent floats config hstarted).recount

theorem told_new (maxNodes : Nat) (event : RecordedEvent) (executionId workflowId : String) :
    (new event executionId workflowId).Told maxNodes [] := by
  refine ⟨by simp, rfl, ⟨by simp, by simp, ?_, by simp⟩, ⟨by simp, by simp, ?_⟩⟩
  · simp [new]
  · intro n node hnode
    simp [new] at hnode

end Held

/-! ## An event again -/

/-- When an event that an execution saw says nothing new of it. -/
structure Held.Repeats (held : Held) (events : List RecordedEvent) (event : RecordedEvent) :
    Prop where
  seen : event ∈ events
  /-- What it says of the execution's life is what was said last. -/
  lifecycle : Held.lifecycleOf event = none ∨
    Held.lifecycleOf event = (events.filterMap Held.lifecycleOf).getLast?
  /-- A step that starts finds its node's last step one that starts. -/
  restart : ∀ n, stepsOn n event = true → event.eventType.phase = some .start →
    ∃ last, lastStep n events = some last ∧ last.eventType.phase = some .start
  /-- A step that ends is the last of its node. -/
  reend : ∀ n ok, stepsOn n event = true → event.eventType.phase = some (.ended ok) →
    lastStep n events = some event
  /-- The end of a run is no later than that of its execution, where that has one of its own. -/
  runEnd : ∀ ok, event.eventType.subject = .run → event.eventType.phase = some (.ended ok) →
    held.managed = none → held.summary.status ≠ .running →
      ∃ stop, held.summary.endedAt = some stop ∧ event.metadata.occurredAt ≤ stop

namespace Held

variable {maxNodes : Nat} {held : Held} {events : List RecordedEvent}

theorem insert_of_mem {texts : BTreeMap String Unit} {text : String} (h : text ∈ texts) :
    texts.insert text () = texts := by
  obtain ⟨_, hunit⟩ := isSome_iff_exists.mp (ExtTreeMap.mem_iff_isSome_getElem?.mp h)
  exact Table.insert_of_getElem? hunit

variable {config : WorkflowConfig} {event : RecordedEvent}

/-- A run's event that was seen disturbs nothing, but for the end of the execution. -/
theorem undisturbed_applyRun (h : RunsTold held events) (hseen : event ∈ events)
    (hrun : event.eventType.subject = .run) : Undisturbed maxNodes held (held.applyRun event) := by
  unfold applyRun
  split
  · rename_i hphase
    split
    · exact .rfl' held
    · rename_i hfresh
      have hopen : event.metadata.runId ∈ held.openRuns :=
        (h.started event hseen hrun hphase).resolve_right fun hended =>
          hfresh (by simpa using hended)
      rw [insert_of_mem hopen]
      exact .rfl' held
  · rename_i ok hphase
    have hended := h.ended event hseen ok hrun hphase
    have hopen : held.openRuns.erase event.metadata.runId = held.openRuns := by
      refine ExtTreeMap.ext_getElem? fun runId => ?_
      rw [getElem?_erase]
      split
      · rename_i hsame
        subst hsame
        exact (ExtTreeMap.getElem?_eq_none (h.apart _ hended)).symm
      · rfl
    refine ⟨rfl, rfl, hopen, insert_of_mem hended, fun _ => rfl, ?_, .rfl' _,
      fun _ hnew hn => absurd hn hnew, Nat.le_refl _⟩
    intro hmanaged
    dsimp only
    split
    · rename_i hfailed
      simp only [Bool.and_eq_true, Bool.not_eq_true', isNone_iff_eq_none] at hfailed
      obtain ⟨rfl, hnone⟩ := hfailed
      rcases h.failed event hseen hrun hphase with hsome | hsome
      · rw [hmanaged] at hsome
        cases hsome
      · rw [hnone] at hsome
        cases hsome
    · rfl
  · exact .rfl' held

/-- A step's event that was seen, and says nothing new of its node, disturbs nothing. -/
theorem undisturbed_applyStep (h : StepsTold config.maxNodesPerExecution held events)
    (hrepeats : held.Repeats events event) (hsubject : event.eventType.subject = .step) :
    Undisturbed config.maxNodesPerExecution held (held.applyStep event config) := by
  unfold applyStep
  cases hkey : nodeKey event with
  | none => exact .rfl' held
  | some nodeId =>
    dsimp only
    have hon : stepsOn nodeId event = true := by simp [stepsOn, hsubject, hkey]
    have hcounted : event.eventType.phase = some .start →
        event.metadata.spanKey ∈ held.attemptsOf nodeId := fun hstart =>
      (h.counted event hrepeats.seen nodeId hon hstart).1
    have hseenNow : (if event.eventType.phase = some .start then
        (held.attemptsOf nodeId).insert event.metadata.spanKey () else held.attemptsOf nodeId) =
          held.attemptsOf nodeId := by
      split
      · rename_i hstart
        exact insert_of_mem (hcounted hstart)
      · rfl
    have hold : (decide (event.eventType.phase = some .start) &&
        !(held.attemptsOf nodeId).contains event.metadata.spanKey) = false := by
      rw [Bool.and_eq_false_iff]
      by_cases hstart : event.eventType.phase = some .start
      · exact .inr (by simpa using hcounted hstart)
      · exact .inl (by simpa using hstart)
    rw [hseenNow, hold]
    generalize min (held.attemptsOf nodeId).size 4294967295 = attempts
    have hput : Undisturbed config.maxNodesPerExecution held
        { held with attempts := held.attempts.insert nodeId (held.attemptsOf nodeId) } := by
      refine ⟨rfl, rfl, rfl, rfl, ?_, fun _ => rfl, .rfl' _, fun _ hnew hn => absurd hn hnew,
        Nat.le_refl _⟩
      intro n
      rw [attemptsOf, Table.getElem?_insert]
      split
      · rename_i hsame
        rw [hsame]
        rfl
      · rfl
    refine hput.trans (.onNode _ ?_ ?_)
    · intro node hnode
      cases hphase : event.eventType.phase with
      | none => simp [stepNode, hphase, NodeState.outcome, noteStep]
      | some phase =>
        cases phase with
        | start =>
          obtain ⟨last, hlast, hstart⟩ := hrepeats.restart nodeId hon hphase
          have hstands := h.stands nodeId node hnode last hlast
          have hstarted := (h.counted event hrepeats.seen nodeId hon hphase).2 node hnode
          simp only [NodeState.StandsAs, hstart] at hstands
          rw [isSome_iff_ne_none] at hstarted
          simp [stepNode, startStep, hphase, NodeState.outcome, noteStep, hstarted, hstands]
        | ended ok =>
          have hstands := h.stands nodeId node hnode event (hrepeats.reend nodeId ok hon hphase)
          simp only [NodeState.StandsAs, hphase] at hstands
          obtain ⟨hstatus, hended, herror⟩ := hstands
          cases ok <;> simp_all [stepNode, endStep, NodeState.outcome, noteStep]
        | point => simp [stepNode, hphase, NodeState.outcome, noteStep]
    · intro hnone hroom
      have hmem : nodeId ∉ held.nodes := by
        rw [ExtTreeMap.mem_iff_isSome_getElem?]
        simpa using hnone
      have hfull := (h.roomed event hrepeats.seen nodeId hon).resolve_left hmem
      exact absurd hroom (Nat.not_lt.mpr hfull)

theorem endedAt_applyRun (hrepeats : held.Repeats events event)
    (hrun : event.eventType.subject = .run) (hmanaged : held.managed = none)
    (hstatus : held.summary.status ≠ .running) :
    (held.applyRun event).summary.endedAt = held.summary.endedAt := by
  unfold applyRun
  split
  · split <;> rfl
  · rename_i ok hphase
    obtain ⟨stop, hstop, hlate⟩ := hrepeats.runEnd ok hrun hphase hmanaged hstatus
    simp only [hstop, map_some, getD_some]
    rw [max_eq_left hlate]
  · rfl

/-- **Redelivery rule**: an execution is not disturbed by an event that says nothing new of it. -/
theorem Told.undisturbed_applyEvent (floats : Floats)
    (h : held.Told config.maxNodesPerExecution events) (hrepeats : held.Repeats events event) :
    Undisturbed config.maxNodesPerExecution held (Held.applyEvent floats config held event).held ∧
      (held.managed = none → held.summary.status ≠ .running →
        (Held.applyEvent floats config held event).held.summary.endedAt = held.summary.endedAt) := by
  by_cases hexecution : event.eventType.subject = .execution
  · have hsame : held.applyExecution event = held := by
      unfold applyExecution
      rcases hrepeats.lifecycle with hnone | hlast
      · rw [hnone]
        rfl
      · rw [hlast, ← h.managed]
        cases hmanaged : held.managed with
        | none => rfl
        | some managed =>
          simp only [elim_some]
          rw [← hmanaged]
    simp only [Held.applyEvent, hexecution, hsame]
    exact ⟨.rfl' held, fun _ _ => trivial⟩
  by_cases hrun : event.eventType.subject = .run
  · simp only [Held.applyEvent, hrun]
    exact ⟨undisturbed_applyRun h.runs hrepeats.seen hrun, endedAt_applyRun hrepeats hrun⟩
  by_cases hstep : event.eventType.subject = .step
  · simp only [Held.applyEvent, hstep]
    exact ⟨undisturbed_applyStep h.steps hrepeats hstep, fun _ _ => by
      rw [(applyStep_kept config held event).2.1]⟩
  · obtain ⟨happlied, hended⟩ :=
      Held.undisturbed_applyEvent floats config held hexecution hrun hstep
    exact ⟨happlied, fun _ _ => hended⟩

/-- An execution stands where it stood, and so do its nodes, when an event it saw is folded in
again and says nothing new. -/
theorem Seen.unmoved (floats : Floats) (h : held.Seen config.maxNodesPerExecution events)
    (hrepeats : held.Repeats events event) :
    (held.fold floats config event).held.outcome = held.outcome ∧
      Undisturbed config.maxNodesPerExecution held (held.fold floats config event).held := by
  obtain ⟨hnoted, hended, hstatus⟩ :=
    undisturbed_noteEvent config.maxNodesPerExecution held event
  rw [startedBy_of_le (h.told.started event hrepeats.seen)] at hnoted
  have hagain : (held.noteEvent event).Repeats events event := by
    refine ⟨hrepeats.seen, hrepeats.lifecycle, hrepeats.restart, hrepeats.reend, ?_⟩
    intro ok hrun hphase hmanaged hrunning
    rw [hended]
    exact hrepeats.runEnd ok hrun hphase (hnoted.managed.symm.trans hmanaged) (hstatus ▸ hrunning)
  obtain ⟨happlied, hstop⟩ := (h.told.undisturbed hnoted).undisturbed_applyEvent floats hagain
  have hall := hnoted.trans happlied
  refine ⟨?_, hall.trans (undisturbed_recount _)⟩
  rw [← h.settled]
  refine hall.outcome fun hmanaged hobserved => ?_
  -- settled: where its nodes and runs say it is, is where it stands
  have hsettled := h.settled
  rw [outcome_recount, hmanaged] at hsettled
  have hsame : held.observedStatus = held.summary.status := congrArg (·.1) hsettled
  rw [hstop (hnoted.managed.trans hmanaged) (by rwa [hstatus, ← hsame]), hended]

end Held

end Aiwatcher.Workflows
