import Aiwatcher.Workflows.Accounts
import Aiwatcher.Workflows.Refold

/-!
# Aiwatcher.Workflows.Delivered

What an event does to the executions that are held: its own is folded on, and the others stand
where they stood (`apply_cases`).
-/

namespace Aiwatcher.Workflows

open Library Table Std

variable {maxNodes : Nat}

/-! ## Executions that stand -/

/-- An execution that is not disturbed, and stands where it stood if it was settled. -/
structure Stands (maxNodes : Nat) (held now : Held) : Prop where
  undisturbed : Undisturbed maxNodes held now
  settled : held.recount.outcome = held.outcome →
    now.outcome = held.outcome ∧ now.recount.outcome = now.outcome

namespace Stands

variable {held now : Held}

theorem rfl' (held : Held) : Stands maxNodes held held := ⟨.rfl' held, fun h => ⟨rfl, h⟩⟩

theorem trans {third : Held} (h : Stands maxNodes held now) (h' : Stands maxNodes now third) :
    Stands maxNodes held third where
  undisturbed := h.undisturbed.trans h'.undisturbed
  settled := by
    intro hsettled
    obtain ⟨houtcome, hagain⟩ := h.settled hsettled
    obtain ⟨houtcome', hagain'⟩ := h'.settled hagain
    exact ⟨houtcome'.trans houtcome, hagain'⟩

theorem seen {events : List RecordedEvent} (h : Stands maxNodes held now)
    (hseen : held.Seen maxNodes events) : now.Seen maxNodes events :=
  ⟨hseen.told.undisturbed h.undisturbed, (h.settled hseen.settled).2⟩

theorem of_outcome (h : Undisturbed maxNodes held now) (houtcome : now.outcome = held.outcome)
    (hended : now.summary.endedAt = held.summary.endedAt) : Stands maxNodes held now where
  undisturbed := h
  settled := fun hsettled =>
    ⟨houtcome, (h.outcome fun _ _ => hended).trans (hsettled.trans houtcome.symm)⟩

theorem adopted (held : Held) (definition : WorkflowDefinition) :
    Stands maxNodes held (held.adopt definition maxNodes).recount := by
  have hadopted := Undisturbed.adopt maxNodes held definition
  refine ⟨hadopted.trans (Held.undisturbed_recount _), fun hsettled => ⟨?_, ?_⟩⟩
  · rw [← hsettled]
    refine hadopted.outcome fun _ _ => ?_
    simp only [Held.adopt, (Held.adoptNodes_fields _ _ _).1]
  · exact Held.outcome_recount_recount _

end Stands

theorem Held.Repeats.stands {held now : Held} {events : List RecordedEvent}
    {event : RecordedEvent} (h : held.Repeats events event) (hstands : Stands maxNodes held now)
    (hsettled : held.recount.outcome = held.outcome) : now.Repeats events event := by
  have houtcome := (hstands.settled hsettled).1
  simp only [Held.outcome, Prod.mk.injEq] at houtcome
  refine ⟨h.seen, h.lifecycle, h.restart, h.reend, ?_⟩
  rw [hstands.undisturbed.managed, houtcome.1, houtcome.2.2.1]
  exact h.runEnd

/-! ## Operations -/

/-- Every execution that is held after was held before, and stands. -/
def Steady (maxNodes : Nat) (before after : WorkflowState) : Prop :=
  ∀ (k : Key) (now : Held), after.held[k]? = some now →
    ∃ held, before.held[k]? = some held ∧ Stands maxNodes held now

namespace Steady

variable {before after : WorkflowState}

theorem of_held (h : after.held = before.held) : Steady maxNodes before after := by
  intro k now hnow
  rw [h] at hnow
  exact ⟨now, hnow, .rfl' now⟩

theorem trans {third : WorkflowState} (h : Steady maxNodes before after)
    (h' : Steady maxNodes after third) : Steady maxNodes before third := by
  intro k now hnow
  obtain ⟨mid, hmid, hstands⟩ := h' k now hnow
  obtain ⟨held, hheld, hstands'⟩ := h k mid hmid
  exact ⟨held, hheld, hstands'.trans hstands⟩

theorem insert {key : Key} {old now : Held} (hold : before.held[key]? = some old)
    (hstands : Stands maxNodes old now) (hheld : after.held = before.held.insert key now) :
    Steady maxNodes before after := by
  intro k other hother
  rw [hheld] at hother
  obtain ⟨rfl, rfl⟩ | ⟨-, hother⟩ := of_insert hother
  · exact ⟨old, hold, hstands⟩
  · exact ⟨other, hother, .rfl' other⟩

variable (state : WorkflowState)

theorem declare (event : RecordedEvent) (workflowId : String) (config : WorkflowConfig) :
    Steady config.maxNodesPerExecution state (state.declare event workflowId config) := by
  have hadopted : Steady config.maxNodesPerExecution (state.declared event workflowId)
      ((state.declared event workflowId).adopted event.metadata.project workflowId config) := by
    unfold WorkflowState.adopted
    split
    · exact of_held rfl
    · rename_i definition _
      intro k now hnow
      rw [ExtTreeMap.getElem?_map] at hnow
      obtain ⟨held, hheld, rfl⟩ := Option.map_eq_some_iff.mp hnow
      refine ⟨held, hheld, ?_⟩
      split
      · exact .adopted held definition
      · exact .rfl' held
  have hdeclared : Steady config.maxNodesPerExecution state (state.declared event workflowId) :=
    of_held (WorkflowState.catalogued_declared state event workflowId).held
  exact (hdeclared.trans hadopted).trans
    (of_held ((WorkflowState.catalogued_evictDefinitions _ _).2 (keyOf none "")).held)

theorem drop (key : Key) : Steady maxNodes state (state.drop key) := by
  unfold WorkflowState.drop
  split
  · exact of_held rfl
  · intro k now hnow
    exact ⟨now, (of_erase hnow).2, .rfl' now⟩

variable (config : WorkflowConfig)

theorem evict : Steady maxNodes state (state.evict config) := by
  unfold WorkflowState.evict
  split
  · exact of_held rfl
  · have hwalk : Steady maxNodes state (state.evicting config).state :=
      Evicting.walk_state (P := Steady maxNodes state)
        (fun walked key h _ => h.trans (drop walked key)) (of_held rfl)
    exact hwalk.trans (of_held rfl)

theorem shedMessages (maxNodes : Nat) {key : Key} {held : Held} (state : WorkflowState) (config : WorkflowConfig)
    (hheld : state.held[key]? = some held) :
    Steady maxNodes state (state.shedMessages config key held) := by
  unfold WorkflowState.shedMessages
  split
  · have hundisturbed : Undisturbed maxNodes held
        { held with messages := [], messagesTruncated := true } :=
      ⟨rfl, rfl, rfl, rfl, fun _ => rfl, fun _ => rfl, .rfl' _, fun _ hnew hn => absurd hn hnew,
        Nat.le_refl _⟩
    exact insert hheld (.of_outcome hundisturbed rfl rfl) rfl
  · exact of_held rfl

theorem shedArtifacts {key : Key} {held : Held} (hheld : state.held[key]? = some held) :
    Steady maxNodes state (state.shedArtifacts config key held) := by
  unfold WorkflowState.shedArtifacts
  split
  · exact insert hheld (.of_outcome (.cleared held) rfl rfl) rfl
  · exact of_held rfl

theorem shedOne (state : WorkflowState) (key : Key) :
    Steady maxNodes state (WorkflowState.shedOne config state key) := by
  unfold WorkflowState.shedOne
  split
  · exact of_held rfl
  · split
    · exact of_held rfl
    · rename_i held hheld
      split
      · exact of_held rfl
      · have hmessages := shedMessages maxNodes state config hheld
        dsimp only
        cases hshed : (state.shedMessages config key held).held[key]? with
        | none => exact hmessages
        | some shed => exact hmessages.trans (shedArtifacts _ config hshed)

theorem shedDetail : Steady maxNodes state (state.shedDetail config) := by
  have hfold : ∀ (keys : List Key) (walked : WorkflowState), Steady maxNodes state walked →
      Steady maxNodes state (keys.foldl (WorkflowState.shedOne config) walked) := by
    intro keys
    induction keys with
    | nil => exact fun _ h => h
    | cons key rest ih => exact fun walked h => ih _ (h.trans (shedOne config walked key))
  exact hfold _ state (of_held rfl)

end Steady

/-! ## One event -/

namespace WorkflowState

theorem opened_cases (state : WorkflowState) (event : RecordedEvent)
    (workflowId executionId : String) (config : WorkflowConfig) {k : Key} {held : Held}
    (hheld : (state.opened event workflowId executionId config).held[k]? = some held) :
    state.held[k]? = some held ∨
      state.held[k]? = none ∧ k = keyOf event.metadata.project executionId ∧
        held.Told config.maxNodesPerExecution [] := by
  unfold opened at hheld
  dsimp only at hheld
  split at hheld
  · exact .inl hheld
  · rename_i hnew
    rw [(catalogued_bumpDefinition _ _ _ _).held, getElem?_insert] at hheld
    split at hheld
    · rename_i hkey
      subst hkey
      refine .inr ⟨ExtTreeMap.getElem?_eq_none (by simpa using hnew), rfl, ?_⟩
      cases hheld
      have htold := Held.told_new config.maxNodesPerExecution event executionId workflowId
      cases state.definitions[keyOf event.metadata.project workflowId]? with
      | none => exact htold
      | some definition => exact htold.undisturbed (.adopt _ _ definition)
    · exact .inl hheld

theorem held_of_declare {state : WorkflowState} {event : RecordedEvent} {workflowId : String}
    {config : WorkflowConfig} {k : Key}
    (h : (state.declare event workflowId config).held[k]? = none) : state.held[k]? = none := by
  rw [declare, ((catalogued_evictDefinitions _ _).2 (keyOf none "")).held] at h
  rw [← (catalogued_declared state event workflowId).held]
  unfold adopted at h
  split at h
  · exact h
  · rw [ExtTreeMap.getElem?_map, Option.map_eq_none_iff] at h
    exact h

/-- **One event**: its execution was folded on from where it stood, or from where the event made
it; the others stand. -/
theorem apply_cases (floats : Floats) (config : WorkflowConfig) (state : WorkflowState)
    (event : RecordedEvent) {workflowId executionId : String}
    (hworkflow : event.metadata.workflowId = some workflowId)
    (hexecution : event.metadata.workflowRunId = some executionId) {k : Key} {now : Held}
    (hnow : (state.apply floats config event).held[k]? = some now) :
    if k = keyOf event.metadata.project executionId then
      ∃ mid, Stands config.maxNodesPerExecution (mid.fold floats config event).held now ∧
        ((∃ held, state.held[k]? = some held ∧
            Stands config.maxNodesPerExecution held mid) ∨
          state.held[k]? = none ∧ mid.Told config.maxNodesPerExecution [])
    else ∃ held, state.held[k]? = some held ∧ Stands config.maxNodesPerExecution held now := by
  have hlast : Steady config.maxNodesPerExecution
      (folded floats config state event workflowId executionId)
      (state.apply floats config event) := by
    simp only [apply, hworkflow, hexecution]
    refine ((Steady.evict _ config).trans (Steady.shedDetail _ config)).trans ?_
    refine .of_held ?_
    rw [((catalogued_evictDefinitions _ _).2 (keyOf none "")).held]
    unfold refreshDefinition
    split <;> rfl
  obtain ⟨last, hfolded, hstands⟩ := hlast k now hnow
  unfold folded at hfolded
  dsimp only at hfolded
  generalize hdeclare : (if event.eventType = .workflowDeclared then
    state.declare event workflowId config else state) = declared at hfolded
  have hdeclared : Steady config.maxNodesPerExecution state declared ∧
      ∀ k : Key, declared.held[k]? = none → state.held[k]? = none := by
    rw [← hdeclare]
    split
    · exact ⟨.declare state event workflowId config, fun _ => held_of_declare⟩
    · exact ⟨.of_held rfl, fun _ h => h⟩
  unfold foldedAt at hfolded
  split at hfolded
  · rename_i hnone
    have hother : k ≠ keyOf event.metadata.project executionId := by
      rintro rfl
      rw [hnone] at hfolded
      cases hfolded
    rw [if_neg hother]
    rcases opened_cases _ _ _ _ _ hfolded with hheld | ⟨-, hkey, -⟩
    · obtain ⟨held, hheld, hbefore⟩ := hdeclared.1 k last hheld
      exact ⟨held, hheld, hbefore.trans hstands⟩
    · exact absurd hkey hother
  · rename_i mid hmid
    dsimp only at hfolded
    obtain ⟨rfl, rfl⟩ | ⟨hother, hfolded⟩ := of_insert hfolded
    · rw [if_pos rfl]
      refine ⟨mid, hstands, ?_⟩
      rcases opened_cases _ _ _ _ _ hmid with hheld | ⟨hnone, -, htold⟩
      · exact .inl (hdeclared.1 _ mid hheld)
      · exact .inr ⟨hdeclared.2 _ hnone, htold⟩
    · rw [if_neg (Ne.symm hother)]
      rcases opened_cases _ _ _ _ _ hfolded with hheld | ⟨-, hkey, -⟩
      · obtain ⟨held, hheld, hbefore⟩ := hdeclared.1 k last hheld
        exact ⟨held, hheld, hbefore.trans hstands⟩
      · exact absurd hkey.symm hother

end WorkflowState

end Aiwatcher.Workflows
