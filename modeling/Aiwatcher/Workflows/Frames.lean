import Aiwatcher.Workflows.State

/-!
# Aiwatcher.Workflows.Frames

What an event leaves alone of an execution: whose it is, and all of its messages and artifacts
but those the event adds.
-/

namespace Aiwatcher.Workflows

open Library Table

namespace Held

variable (held : Held) (event : RecordedEvent)

/-- Whose an execution is: its workflow, in its project. -/
def identity : String × Option Store.ProjectScope :=
  (held.summary.workflowId, held.summary.project)

theorem definitionKey_of_identity {held other : Held} (h : held.identity = other.identity) :
    held.definitionKey = other.definitionKey := by
  simp only [identity, Prod.mk.injEq] at h
  rw [definitionKey, definitionKey, h.1, h.2]

/-! ## Recounting -/

@[simp] theorem identity_recount : held.recount.identity = held.identity := by
  unfold recount
  split
  · rfl
  · split <;> rfl

@[simp] theorem messages_recount : held.recount.messages = held.messages := by
  unfold recount
  split
  · rfl
  · split <;> rfl

@[simp] theorem nodes_recount : held.recount.nodes = held.nodes := by
  unfold recount
  split
  · rfl
  · split <;> rfl

@[simp] theorem artifactsHeld_recount : held.recount.artifactsHeld = held.artifactsHeld := by
  simp [artifactsHeld]

/-! ## Nodes -/

theorem onNode_fields (nodeId : String) (maxNodes : Nat) (change : NodeState → NodeState) :
    (held.onNode nodeId maxNodes change).summary = held.summary ∧
      (held.onNode nodeId maxNodes change).messages = held.messages := by
  unfold onNode
  split
  · exact ⟨rfl, rfl⟩
  · split <;> exact ⟨rfl, rfl⟩

theorem artifactsHeld_onNode (nodeId : String) (maxNodes : Nat) {change : NodeState → NodeState}
    {added : Nat} (hchange : ∀ node, (change node).artifacts.length =
      node.artifacts.length + added) :
    (held.onNode nodeId maxNodes change).artifactsHeld =
      held.artifactsHeld + if held.hasNode nodeId maxNodes then added else 0 := by
  have hentry : Table.tally (fun _ node => node.artifacts.length)
      (Table.entry held.nodes nodeId (.observed nodeId) change) = held.artifactsHeld + added :=
    tally_entry _ rfl hchange held.nodes
  unfold onNode hasNode
  split
  · rename_i hthere
    simpa [artifactsHeld, hthere] using hentry
  · rename_i hnew
    split
    · rename_i hfull
      simp [hnew, Nat.not_lt.mpr hfull]
    · rename_i hroom
      simpa [artifactsHeld, Nat.lt_of_not_le hroom] using hentry

theorem adoptNodes_fields (maxNodes : Nat) (nodes : List WorkflowNode) (held : Held) :
    (adoptNodes maxNodes nodes held).summary = held.summary ∧
      (adoptNodes maxNodes nodes held).messages = held.messages ∧
      (adoptNodes maxNodes nodes held).artifactsHeld = held.artifactsHeld := by
  induction nodes generalizing held with
  | nil => exact ⟨rfl, rfl, rfl⟩
  | cons node rest ih =>
    unfold adoptNodes
    split
    · rename_i existing hexisting
      obtain ⟨hsummary, hmessages, hartifacts⟩ :=
        ih { held with nodes := held.nodes.insert node.id (existing.promoted node) }
      refine ⟨hsummary, hmessages, hartifacts.trans ?_⟩
      rw [artifactsHeld, artifactsHeld, tally_insert, tally_eq_add hexisting]
      rfl
    · rename_i hnone
      split
      · exact ⟨rfl, rfl, rfl⟩
      · obtain ⟨hsummary, hmessages, hartifacts⟩ :=
          ih { held with
            nodeOrder := held.nodeOrder ++ [node.id]
            nodes := held.nodes.insert node.id (.declaredFrom node) }
        refine ⟨hsummary, hmessages, hartifacts.trans ?_⟩
        rw [artifactsHeld, artifactsHeld, tally_insert_of_none hnone]
        simp [NodeState.declaredFrom]

variable (definition : WorkflowDefinition)

@[simp] theorem identity_adopt (maxNodes : Nat) :
    (held.adopt definition maxNodes).identity = held.identity := by
  simp only [adopt, identity, (adoptNodes_fields _ _ _).1]

@[simp] theorem messages_adopt (maxNodes : Nat) :
    (held.adopt definition maxNodes).messages = held.messages := by
  simp only [adopt, (adoptNodes_fields _ _ _).2.1]

@[simp] theorem artifactsHeld_adopt (maxNodes : Nat) :
    (held.adopt definition maxNodes).artifactsHeld = held.artifactsHeld :=
  (adoptNodes_fields maxNodes definition.nodes _).2.2

/-! ## Events -/

@[simp] theorem identity_noteAgent (agent : String) :
    (held.noteAgent agent).identity = held.identity := by
  unfold noteAgent
  split <;> rfl

theorem noteAgent_fields (agent : String) : (held.noteAgent agent).messages = held.messages ∧
    (held.noteAgent agent).nodes = held.nodes := by
  unfold noteAgent
  split <;> exact ⟨rfl, rfl⟩

@[simp] theorem identity_noteEvent : (held.noteEvent event).identity = held.identity := by
  unfold noteEvent
  cases event.metadata.agentId with
  | none => rfl
  | some agent => exact identity_noteAgent _ agent

theorem noteEvent_fields : (held.noteEvent event).messages = held.messages ∧
    (held.noteEvent event).nodes = held.nodes ∧
    (held.noteEvent event).messageIds = held.messageIds := by
  unfold noteEvent
  cases event.metadata.agentId with
  | none => exact ⟨rfl, rfl, rfl⟩
  | some agent =>
    dsimp only [Option.elim_some]
    unfold noteAgent
    split <;> exact ⟨rfl, rfl, rfl⟩

theorem applyExecution_fields : (held.applyExecution event).identity = held.identity ∧
    (held.applyExecution event).messages = held.messages ∧
    (held.applyExecution event).nodes = held.nodes := by
  unfold applyExecution
  cases lifecycleOf event <;> exact ⟨rfl, rfl, rfl⟩

theorem applyRun_fields : (held.applyRun event).identity = held.identity ∧
    (held.applyRun event).messages = held.messages ∧
    (held.applyRun event).nodes = held.nodes := by
  unfold applyRun
  split
  · split <;> exact ⟨rfl, rfl, rfl⟩
  · exact ⟨rfl, rfl, rfl⟩
  · exact ⟨rfl, rfl, rfl⟩

theorem artifacts_stepNode (counted : Bool) (attempts : Nat) (node : NodeState) :
    (stepNode counted attempts event node).artifacts = node.artifacts := by
  unfold stepNode startStep
  dsimp only
  split
  · split <;> rfl
  · rfl
  · rfl

variable (config : WorkflowConfig)

theorem applyStep_fields :
    (held.applyStep event config).identity = held.identity ∧
      (held.applyStep event config).messages = held.messages ∧
      (held.applyStep event config).artifactsHeld = held.artifactsHeld := by
  unfold applyStep
  cases nodeKey event with
  | none => exact ⟨rfl, rfl, rfl⟩
  | some nodeId =>
    dsimp only
    refine ⟨?_, (onNode_fields _ _ _ _).2, ?_⟩
    · rw [identity, (onNode_fields _ _ _ _).1]
      rfl
    · rw [artifactsHeld_onNode _ _ _ fun node => by rw [artifacts_stepNode, Nat.add_zero]]
      simp [artifactsHeld]

variable (floats : Floats)

theorem applyArtifact_fields (config : WorkflowConfig) :
    (applyArtifact floats held event config).1.identity = held.identity ∧
      (applyArtifact floats held event config).1.messages = held.messages ∧
      (applyArtifact floats held event config).1.artifactsHeld =
        held.artifactsHeld + (applyArtifact floats held event config).2.toNat := by
  unfold applyArtifact
  cases uriOf event with
  | none => exact ⟨rfl, rfl, rfl⟩
  | some uri =>
    dsimp only
    split
    · exact ⟨rfl, rfl, rfl⟩
    · refine ⟨?_, (onNode_fields _ _ _ _).2, ?_⟩
      · rw [identity, (onNode_fields _ _ _ _).1]
        rfl
      · have hadded : ∀ room : Bool, (if room then [artifactOf floats event uri].length else 0) =
            room.toNat := by
          intro room
          cases room <;> rfl
        rw [artifactsHeld_onNode _ _ _ fun node => List.length_append, hadded]
        rfl

/-- A message that is counted, and that the list of its execution has no room for. -/
def refuses (config : WorkflowConfig) : Bool :=
  event.eventType = .agentMessage && (endsOf event).isSome &&
    !held.messageIds.contains event.metadata.messageId &&
    config.maxMessagesPerExecution ≤ held.messages.length

theorem applyMessage_fields :
    (held.applyMessage event config).1.identity = held.identity ∧
      (held.applyMessage event config).1.nodes = held.nodes := by
  unfold applyMessage
  cases endsOf event with
  | none => exact ⟨rfl, rfl⟩
  | some ends =>
    dsimp only
    split
    · exact ⟨rfl, rfl⟩
    · split
      · exact ⟨by simpa [identity] using (identity_noteAgent _ _).trans (identity_noteAgent _ _),
          (noteAgent_fields _ _).2.trans (noteAgent_fields _ _).2⟩
      · exact ⟨by simpa [identity] using (identity_noteAgent _ _).trans (identity_noteAgent _ _),
          (noteAgent_fields _ _).2.trans (noteAgent_fields _ _).2⟩

theorem messages_applyMessage (htype : event.eventType = .agentMessage)
    (h : held.refuses event config = false) :
    (held.applyMessage event config).1.messages.length =
      held.messages.length + (held.applyMessage event config).2.toNat := by
  unfold applyMessage
  cases hends : endsOf event with
  | none => rfl
  | some ends =>
    dsimp only
    split
    · rfl
    · rename_i hnew
      have hmessages : ∀ other : Held,
          ((other.noteAgent ends.1).noteAgent ends.2).messages = other.messages :=
        fun _ => (noteAgent_fields _ _).1.trans (noteAgent_fields _ _).1
      have hroom : held.messages.length < config.maxMessagesPerExecution := by
        simpa [refuses, htype, hends, hnew] using h
      rw [if_pos (by rw [hmessages]; exact hroom)]
      simp [hmessages]

/-! ## Folding -/

theorem applyEvent_fields (config : WorkflowConfig) :
    (applyEvent floats config held event).held.identity = held.identity ∧
      (applyEvent floats config held event).held.artifactsHeld =
        held.artifactsHeld + (applyEvent floats config held event).artifacts := by
  have hnodes : ∀ other : Held, other.nodes = held.nodes →
      other.artifactsHeld = held.artifactsHeld := fun other h => by rw [artifactsHeld, h]; rfl
  unfold applyEvent
  split
  · exact ⟨(applyExecution_fields held event).1, hnodes _ (applyExecution_fields held event).2.2⟩
  · exact ⟨(applyRun_fields held event).1, hnodes _ (applyRun_fields held event).2.2⟩
  · exact ⟨(applyStep_fields held event config).1, (applyStep_fields held event config).2.2⟩
  · split
    · exact ⟨(applyArtifact_fields held event floats config).1,
        (applyArtifact_fields held event floats config).2.2⟩
    · exact ⟨rfl, rfl⟩
  · split
    · exact ⟨(applyMessage_fields held event config).1,
        hnodes _ (applyMessage_fields held event config).2⟩
    · exact ⟨rfl, rfl⟩
  · exact ⟨rfl, rfl⟩

theorem messages_applyEvent (config : WorkflowConfig) (h : held.refuses event config = false) :
    (applyEvent floats config held event).held.messages.length =
      held.messages.length + (applyEvent floats config held event).messages := by
  unfold applyEvent
  split
  · rw [(applyExecution_fields held event).2.1]
    rfl
  · rw [(applyRun_fields held event).2.1]
    rfl
  · rw [(applyStep_fields held event config).2.1]
    rfl
  · split
    · rw [(applyArtifact_fields held event floats config).2.1]
      rfl
    · rfl
  · split
    · rename_i htype
      exact messages_applyMessage held event config htype h
    · rfl
  · rfl

theorem identity_fold (config : WorkflowConfig) :
    (held.fold floats config event).held.identity = held.identity := by
  simp [fold, (applyEvent_fields _ _ _ _).1]

theorem artifactsHeld_fold (config : WorkflowConfig) :
    (held.fold floats config event).held.artifactsHeld =
      held.artifactsHeld + (held.fold floats config event).artifacts := by
  have hnoted : (held.noteEvent event).artifactsHeld = held.artifactsHeld := by
    rw [artifactsHeld, (noteEvent_fields held event).2.1]
    rfl
  simp only [fold, artifactsHeld_recount]
  rw [(applyEvent_fields _ _ _ _).2, hnoted]

theorem messages_fold (config : WorkflowConfig) (h : held.refuses event config = false) :
    (held.fold floats config event).held.messages.length =
      held.messages.length + (held.fold floats config event).messages := by
  obtain ⟨hmessages, -, hids⟩ := noteEvent_fields held event
  have hroom : (held.noteEvent event).refuses event config = false := by
    rw [refuses, hmessages, hids]
    exact h
  simp only [fold, messages_recount]
  rw [messages_applyEvent _ _ _ _ hroom, hmessages]

end Held

end Aiwatcher.Workflows
