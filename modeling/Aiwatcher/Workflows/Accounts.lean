import Aiwatcher.Workflows.Frames

/-!
# Aiwatcher.Workflows.Accounts

The running totals of the workflow projection are the true ones, where no message is counted that
is not kept, and every event names the workflow of its execution and of those it evicts.
-/

namespace Aiwatcher.Workflows

open Library List Option Table Std

/-! ## Totals -/

theorem tally_congr_of_mem {κ β : Type} [Ord κ] [Std.TransOrd κ] [Std.LawfulEqOrd κ]
    {worth other : κ → β → Nat} {table : BTreeMap κ β}
    (h : ∀ key row, table[key]? = some row → worth key row = other key row) :
    Table.tally worth table = Table.tally other table := by
  unfold Table.tally
  congr 1
  apply map_congr_left
  intro row hrow
  exact h row.1 row.2 (ExtTreeMap.mem_toList_iff_getElem?_eq_some.mp hrow)

theorem tally_replace {κ β : Type} [Ord κ] [Std.TransOrd κ] [Std.LawfulEqOrd κ] [DecidableEq κ]
    (worth : κ → β → Nat) {table : BTreeMap κ β} {key : κ} {old : β}
    (h : table[key]? = some old) (new : β) :
    Table.tally worth (table.insert key new) + worth key old =
      Table.tally worth table + worth key new := by
  rw [tally_insert, tally_eq_add h]
  omega

namespace WorkflowState

variable {state : WorkflowState} {config : WorkflowConfig}

/-- The messages of all executions. -/
def messagesHeld (state : WorkflowState) : Nat :=
  Table.tally (fun _ held => held.messages.length) state.held

/-- The artifacts of all nodes. -/
def artifactsHeld (state : WorkflowState) : Nat :=
  Table.tally (fun _ held => held.artifactsHeld) state.held

/-- What the executions that are running are worth. -/
def ofRunning (worth : Held → Nat) (state : WorkflowState) : Nat :=
  Table.tally (fun _ held => if held.summary.status = .running then worth held else 0) state.held

/-- The executions held for a workflow that stand so. -/
def standing (key : Key) (which : ExecutionStatus → Bool) (state : WorkflowState) : Nat :=
  Table.tally (fun _ held => if held.definitionKey = key ∧ which held.summary.status then 1 else 0)
    state.held

/-- What holds between two events. -/
structure Balanced (state : WorkflowState) : Prop where
  messages : state.messageCount = state.messagesHeld
  artifacts : state.artifactCount = state.artifactsHeld
  listed : ∀ key ∈ state.held, key ∈ state.order
  inScope : ∀ (key : Key) (held : Held), state.held[key]? = some held →
    Periods.keyOf held.summary.project = key.scope

/-- The totals of a state are the true ones, and within their caps where the executions that are
running leave room. -/
structure Accounted (config : WorkflowConfig) (state : WorkflowState) : Prop where
  messages : state.messageCount = state.messagesHeld
  artifacts : state.artifactCount = state.artifactsHeld
  messagesCapped : state.ofRunning (fun held => held.messages.length) ≤ config.maxMessagesTotal →
    state.messageCount ≤ config.maxMessagesTotal
  artifactsCapped : state.ofRunning Held.artifactsHeld ≤ config.maxArtifactsTotal →
    state.artifactCount ≤ config.maxArtifactsTotal
  definitions : ∀ key definition, state.definitions[key]? = some definition →
    definition.counts = state.countsOf key

/-! ## Counting executions -/

theorem countP_values (held : BTreeMap Key Held) (which : Held → Bool) :
    (BTreeMap.values held).countP which =
      Table.tally (fun _ held => if which held then 1 else 0) held := by
  unfold BTreeMap.values Table.tally
  induction held.toList with
  | nil => rfl
  | cons row rows ih =>
    simp only [map_cons, countP_cons, sum_cons, ih]
    omega

theorem countsOf_eq (key : Key) (state : WorkflowState) : state.countsOf key =
    ⟨state.standing key fun _ => true, state.standing key (· = .running),
      state.standing key (· = .succeeded), state.standing key (· = .failed)⟩ := by
  unfold countsOf standing
  dsimp only
  simp only [countP_filter, ← countP_eq_length_filter, countP_values]
  congr 3 <;>
    · funext _ held
      simp [and_comm]

variable {after : WorkflowState} {event : RecordedEvent} {first second third : WorkflowState}
  {held : Held} {key : Key}

theorem countsOf_congr (h : ∀ which, after.standing key which = state.standing key which) :
    after.countsOf key = state.countsOf key := by
  simp only [countsOf_eq, h]

/-! ## The catalog -/

/-- A change of the catalog alone, that leaves or drops every row but one. -/
structure Catalogued (key : Key) (before after : WorkflowState) : Prop where
  held : after.held = before.held
  order : after.order = before.order
  artifactCount : after.artifactCount = before.artifactCount
  messageCount : after.messageCount = before.messageCount
  others : ∀ (k : Key) (definition : WorkflowDefinition), k ≠ key →
    after.definitions[k]? = some definition → before.definitions[k]? = some definition

theorem catalogued_define (key : Key) (definition : WorkflowDefinition) (state : WorkflowState) :
    Catalogued key state (state.define key definition) := by
  refine ⟨rfl, rfl, rfl, rfl, fun k other hne hother => ?_⟩
  rw [define, Table.getElem?_insert, if_neg (Ne.symm hne)] at hother
  exact hother

theorem catalogued_evictDefinitions (state : WorkflowState) (maxDefinitions : Nat) :
    (∀ (k : Key) (definition : WorkflowDefinition),
      (state.evictDefinitions maxDefinitions).definitions[k]? = some definition →
        state.definitions[k]? = some definition) ∧
    ∀ key, Catalogued key state (state.evictDefinitions maxDefinitions) := by
  have hdropped : ∀ (k : Key) (definition : WorkflowDefinition),
      (state.evictDefinitions maxDefinitions).definitions[k]? = some definition →
        state.definitions[k]? = some definition := by
    unfold evictDefinitions
    split
    · exact fun _ _ h => h
    · dsimp only
      apply Evicting.walk_state (P := fun definitions : BTreeMap Key WorkflowDefinition =>
        ∀ (k : Key) (definition : WorkflowDefinition), definitions[k]? = some definition →
          state.definitions[k]? = some definition)
      · intro definitions key h _ k definition hsome
        exact h k definition (of_erase hsome).2
      · exact fun _ _ h => h
  refine ⟨hdropped, fun key => ?_⟩
  refine ⟨?_, ?_, ?_, ?_, fun k definition _ h => hdropped k definition h⟩ <;>
    · unfold evictDefinitions
      split <;> rfl

theorem Catalogued.trans (h : Catalogued key first second) (h' : Catalogued key second third) :
    Catalogued key first third where
  held := h'.held.trans h.held
  order := h'.order.trans h.order
  artifactCount := h'.artifactCount.trans h.artifactCount
  messageCount := h'.messageCount.trans h.messageCount
  others := fun k definition hne hsome =>
    h.others k definition hne (h'.others k definition hne hsome)

theorem catalogued_declared (state : WorkflowState) (event : RecordedEvent) (workflowId : String) :
    Catalogued (keyOf event.metadata.project workflowId) state
      (state.declared event workflowId) := by
  unfold declared
  dsimp only
  split
  · refine ⟨rfl, rfl, rfl, rfl, fun k other hne hother => ?_⟩
    rwa [Table.getElem?_insert, if_neg (Ne.symm hne)] at hother
  · exact catalogued_define _ _ _

theorem catalogued_bumpDefinition (state : WorkflowState) (project : Option Store.ProjectScope)
    (workflowId : String) (at' : OffsetDateTime) :
    Catalogued (keyOf project workflowId) state
      (state.bumpDefinition project workflowId at') := by
  unfold bumpDefinition
  dsimp only
  split
  · exact ⟨rfl, rfl, rfl, rfl, fun _ _ _ h => h⟩
  · exact catalogued_define _ _ _

theorem Balanced.catalogued (h : Balanced state) (hcatalogued : Catalogued key state after) :
    Balanced after where
  messages := by
    rw [hcatalogued.messageCount, messagesHeld, hcatalogued.held]
    exact h.messages
  artifacts := by
    rw [hcatalogued.artifactCount, artifactsHeld, hcatalogued.held]
    exact h.artifacts
  listed := by
    rw [hcatalogued.held, hcatalogued.order]
    exact h.listed
  inScope := by
    rw [hcatalogued.held]
    exact h.inScope

/-! ## Executions -/

/-- Executions of one workflow that change, and the catalog's row of it: what is held for the
others stands as it did. -/
structure Confined (key : Key) (before after : WorkflowState) : Prop where
  standing : ∀ other which, other ≠ key → after.standing other which = before.standing other which
  others : ∀ (k : Key) (definition : WorkflowDefinition), k ≠ key →
    after.definitions[k]? = some definition → before.definitions[k]? = some definition

theorem Confined.trans (h : Confined key first second) (h' : Confined key second third) :
    Confined key first third where
  standing := fun other which hne =>
    (h'.standing other which hne).trans (h.standing other which hne)
  others := fun k definition hne hsome =>
    h.others k definition hne (h'.others k definition hne hsome)

theorem Catalogued.confined {before after : WorkflowState} (h : Catalogued key before after) :
    Confined key before after :=
  ⟨fun _ _ _ => by rw [WorkflowState.standing, h.held]; rfl, h.others⟩

theorem Balanced.adopted (h : Balanced state) (project : Option Store.ProjectScope)
    (workflowId : String) :
    Balanced (state.adopted project workflowId config) ∧
      Confined (keyOf project workflowId) state (state.adopted project workflowId config) := by
  unfold WorkflowState.adopted
  split
  · exact ⟨h, fun _ _ _ => rfl, fun _ _ _ h => h⟩
  · rename_i definition _
    refine ⟨⟨h.messages.trans ?_, h.artifacts.trans ?_, ?_, ?_⟩, ?_, fun _ _ _ h => h⟩
    · rw [messagesHeld, messagesHeld, tally_map]
      apply tally_congr
      intro key held
      split <;> simp
    · rw [artifactsHeld, artifactsHeld, tally_map]
      apply tally_congr
      intro key held
      split <;> simp
    · intro key hkey
      exact h.listed key (by simpa using hkey)
    · intro key held hheld
      simp only [ExtTreeMap.getElem?_map, map_eq_some_iff] at hheld
      obtain ⟨old, hold, rfl⟩ := hheld
      have hidentity : ∀ other : Held, other.identity = old.identity →
          Periods.keyOf other.summary.project = key.scope := by
        intro other hother
        rw [show other.summary.project = old.summary.project from congrArg Prod.snd hother]
        exact h.inScope key old hold
      split
      · exact hidentity _ (by simp)
      · exact hidentity _ rfl
    · intro other which hne
      rw [standing, standing, tally_map]
      apply tally_congr
      intro key held
      split
      · rename_i hsame
        have hkey : held.definitionKey = keyOf project workflowId := by
          rw [Held.definitionKey, hsame.1, hsame.2]
        have hadopted :
            ((held.adopt definition config.maxNodesPerExecution).recount).definitionKey =
              keyOf project workflowId :=
          (Held.definitionKey_of_identity (by simp)).trans hkey
        simp [hkey, hadopted, Ne.symm hne]
      · rfl

/-- An execution that is put in an execution's place keeps the totals where they move alike. -/
theorem Balanced.replace (h : Balanced state) {old new : Held}
    (hold : state.held[key]? = some old) (hidentity : new.identity = old.identity) (hheld : after.held = state.held.insert key new)
    (horder : after.order = state.order)
    (hmessages : after.messageCount + old.messages.length =
      state.messageCount + new.messages.length)
    (hartifacts : after.artifactCount + old.artifactsHeld =
      state.artifactCount + new.artifactsHeld) : Balanced after where
  messages := by
    have hreplace := tally_replace (fun _ (held : Held) => held.messages.length) hold new
    have hbefore : state.messageCount =
        Table.tally (fun _ (held : Held) => held.messages.length) state.held := h.messages
    rw [messagesHeld, hheld]
    omega
  artifacts := by
    have hreplace := tally_replace (fun _ (held : Held) => held.artifactsHeld) hold new
    have hbefore : state.artifactCount =
        Table.tally (fun _ (held : Held) => held.artifactsHeld) state.held := h.artifacts
    rw [artifactsHeld, hheld]
    omega
  listed := by
    rw [hheld, horder]
    intro k hk
    rw [ExtTreeMap.mem_insert, Std.LawfulEqCmp.compare_eq_iff_eq] at hk
    rcases hk with rfl | hk
    · exact h.listed _ (Table.mem_of_getElem? hold)
    · exact h.listed k hk
  inScope := by
    intro k held hk
    rw [hheld] at hk
    obtain ⟨rfl, rfl⟩ | ⟨-, hk⟩ := of_insert hk
    · rw [show new.summary.project = old.summary.project from congrArg Prod.snd hidentity]
      exact h.inScope _ old hold
    · exact h.inScope k held hk

/-- And where they are one workflow's, the other workflows stand as they did. -/
theorem confined_insert {new : Held}
    (hold : ∀ old, state.held[key]? = some old → old.identity = new.identity)
    (hheld : after.held = state.held.insert key new)
    (hdefinitions : after.definitions = state.definitions) :
    Confined new.definitionKey state after := by
  refine ⟨fun other which hne => ?_, fun k definition _ h => by rwa [hdefinitions] at h⟩
  rw [standing, standing, hheld]
  cases hrow : state.held[key]? with
  | none =>
    rw [tally_insert_of_none hrow]
    simp [Ne.symm hne]
  | some old =>
    have hkey := Held.definitionKey_of_identity (hold old hrow)
    rw [tally_insert, tally_eq_add hrow]
    simp [hkey, Ne.symm hne]

theorem Balanced.opened (h : Balanced state) (event : RecordedEvent)
    (workflowId executionId : String) :
    Balanced (state.opened event workflowId executionId config) ∧
      Confined (keyOf event.metadata.project workflowId) state
        (state.opened event workflowId executionId config) := by
  unfold WorkflowState.opened
  dsimp only
  split
  · exact ⟨h, fun _ _ _ => rfl, fun _ _ _ h => h⟩
  · rename_i hnew
    have hnone : state.held[keyOf event.metadata.project executionId]? = none :=
      ExtTreeMap.getElem?_eq_none (by simpa using hnew)
    generalize hheld : (state.definitions[keyOf event.metadata.project workflowId]?).elim
      (Held.new event executionId workflowId) (fun definition =>
        (Held.new event executionId workflowId).adopt definition config.maxNodesPerExecution) = held
    have hfresh : held.identity = (workflowId, event.metadata.project) ∧ held.messages = [] ∧
        held.artifactsHeld = 0 := by
      rw [← hheld]
      cases state.definitions[keyOf event.metadata.project workflowId]? with
      | none => exact ⟨rfl, rfl, by simp [Held.new, Held.artifactsHeld]⟩
      | some definition =>
        exact ⟨(Held.identity_adopt _ _ _).trans rfl, (Held.messages_adopt _ _ _).trans rfl,
          (Held.artifactsHeld_adopt _ _ _).trans (by simp [Held.new, Held.artifactsHeld])⟩
    obtain ⟨hidentity, hmessages, hartifacts⟩ := hfresh
    have hkey : held.definitionKey = keyOf event.metadata.project workflowId := by
      simp only [Held.identity, Prod.mk.injEq] at hidentity
      rw [Held.definitionKey, hidentity.1, hidentity.2]
    have hbalanced : Balanced { state with
        order := state.order ++ [keyOf event.metadata.project executionId]
        held := state.held.insert (keyOf event.metadata.project executionId) held } := by
      refine ⟨?_, ?_, ?_, ?_⟩
      · rw [messagesHeld, tally_insert_of_none hnone, hmessages]
        exact h.messages.trans (Nat.zero_add _).symm
      · rw [artifactsHeld, tally_insert_of_none hnone, hartifacts]
        exact h.artifacts.trans (Nat.zero_add _).symm
      · intro k hk
        rw [ExtTreeMap.mem_insert, Std.LawfulEqCmp.compare_eq_iff_eq] at hk
        rcases hk with rfl | hk
        · simp
        · exact mem_append_left _ (h.listed k hk)
      · intro k other hk
        obtain ⟨rfl, rfl⟩ | ⟨-, hk⟩ := of_insert hk
        · rw [show held.summary.project = event.metadata.project from congrArg Prod.snd hidentity]
          rfl
        · exact h.inScope k other hk
    have hbumped := catalogued_bumpDefinition { state with
        order := state.order ++ [keyOf event.metadata.project executionId]
        held := state.held.insert (keyOf event.metadata.project executionId) held }
      event.metadata.project workflowId event.metadata.occurredAt
    have hinsert : Confined held.definitionKey state { state with
        order := state.order ++ [keyOf event.metadata.project executionId]
        held := state.held.insert (keyOf event.metadata.project executionId) held } :=
      confined_insert (fun old hold => by rw [hnone] at hold; cases hold) rfl rfl
    rw [hkey] at hinsert
    exact ⟨hbalanced.catalogued hbumped, hinsert.trans hbumped.confined⟩

theorem Balanced.foldedAt (h : Balanced state) (floats : Floats)
    (hheld : state.held[key]? = some held) (hroom : held.refuses event config = false) :
    Balanced (foldedAt floats config state key event) ∧
      Confined held.definitionKey state (WorkflowState.foldedAt floats config state key event) := by
  have hidentity := Held.identity_fold held event floats config
  have hkey := Held.definitionKey_of_identity hidentity
  rw [WorkflowState.foldedAt, hheld]
  refine ⟨h.replace hheld hidentity rfl rfl ?_ ?_, ?_⟩
  · dsimp only
    rw [Held.messages_fold held event floats config hroom]
    omega
  · dsimp only
    rw [Held.artifactsHeld_fold held event floats config]
    omega
  · rw [← hkey]
    refine confined_insert (fun old hold => ?_) rfl rfl
    cases some.inj (hheld.symm.trans hold)
    exact hidentity.symm

/-! ## Caps -/

theorem drop_eq {dropped : Held} (hdropped : state.held[key]? = some dropped) :
    (state.drop key).held = state.held.erase key ∧
      state.messageCount - dropped.messages.length = (state.drop key).messageCount ∧
      state.artifactCount - dropped.artifactsHeld = (state.drop key).artifactCount ∧
      (state.drop key).definitions = state.definitions := by
  rw [drop, hdropped]
  exact ⟨rfl, rfl, rfl, rfl⟩

/-- The walk over the executions, with what is left of it. -/
structure Walked (key : Key) (state : WorkflowState) (walk : Evicting WorkflowState Key)
    (rest : List Key) : Prop where
  messages : walk.state.messageCount = walk.state.messagesHeld
  artifacts : walk.state.artifactCount = walk.state.artifactsHeld
  listed : ∀ k ∈ walk.state.held, k ∈ walk.keep ++ rest
  held : ∀ (k : Key) (held : Held), walk.state.held[k]? = some held → state.held[k]? = some held
  definitions : walk.state.definitions = state.definitions
  standing : (∀ gone ∈ walk.gone, ∀ held, state.held[gone]? = some held →
      held.definitionKey = key) →
    ∀ other which, other ≠ key → walk.state.standing other which = state.standing other which

theorem Walked.drop {key k : Key} {walk : Evicting WorkflowState Key} {rest : List Key}
    (h : Walked key state walk (k :: rest)) (hmay : walk.state.finished k = true) :
    Walked key state ⟨walk.state.drop k, walk.excess - 1, walk.keep, walk.gone ++ [k]⟩ rest := by
  obtain ⟨dropped, hdropped⟩ : ∃ dropped, walk.state.held[k]? = some dropped := by
    unfold finished at hmay
    cases hheld : walk.state.held[k]? with
    | none => simp [hheld] at hmay
    | some dropped => exact ⟨dropped, rfl⟩
  obtain ⟨hheld, hmessages, hartifacts, hdefinitions⟩ := drop_eq hdropped
  have hmessagesHeld : walk.state.messageCount = dropped.messages.length +
      Table.tally (fun _ (held : Held) => held.messages.length) (walk.state.held.erase k) :=
    h.messages.trans (tally_eq_add hdropped)
  have hartifactsHeld : walk.state.artifactCount = dropped.artifactsHeld +
      Table.tally (fun _ (held : Held) => held.artifactsHeld) (walk.state.held.erase k) :=
    h.artifacts.trans (tally_eq_add hdropped)
  refine ⟨?_, ?_, ?_, ?_, hdefinitions.trans h.definitions, ?_⟩
  · dsimp only
    rw [messagesHeld, hheld]
    omega
  · dsimp only
    rw [artifactsHeld, hheld]
    omega
  · intro other hother
    dsimp only at hother ⊢
    rw [hheld, ExtTreeMap.mem_erase] at hother
    have hmem := h.listed other hother.2
    simp only [mem_append, mem_cons] at hmem ⊢
    rcases hmem with hkeep | rfl | hrest
    · exact .inl hkeep
    · simp at hother
    · exact .inr hrest
  · intro other held hother
    dsimp only at hother
    rw [hheld] at hother
    exact h.held other held (of_erase hother).2
  · intro hgone other which hne
    have hbefore := h.standing (fun gone hmem => hgone gone (mem_append_left _ hmem)) other
      which hne
    have hkey := hgone k (by simp) dropped (h.held k dropped hdropped)
    rw [← hbefore]
    dsimp only
    rw [WorkflowState.standing, WorkflowState.standing, hheld, tally_eq_add hdropped]
    simp [hkey, Ne.symm hne]

theorem Balanced.evict (h : Balanced state)
    (hgone : ∀ gone ∈ (state.evicting config).gone, ∀ held, state.held[gone]? = some held →
      held.definitionKey = key) :
    Balanced (state.evict config) ∧ Confined key state (state.evict config) := by
  unfold WorkflowState.evict
  split
  · exact ⟨h, fun _ _ _ => rfl, fun _ _ _ h => h⟩
  · dsimp only
    have hwalked : Walked key state (state.evicting config) [] := by
      apply Evicting.walk_induction (Walked key state)
      · exact fun walk k rest h hmay => h.drop hmay
      · intro walk k rest h
        exact ⟨h.messages, h.artifacts, by simpa using h.listed, h.held, h.definitions, h.standing⟩
      · exact ⟨h.messages, h.artifacts, by simpa using h.listed, fun _ _ h => h, rfl,
          fun _ _ _ _ => rfl⟩
    refine ⟨⟨hwalked.messages, hwalked.artifacts, by simpa using hwalked.listed, ?_⟩, ?_, ?_⟩
    · exact fun k held hheld => h.inScope k held (hwalked.held k held hheld)
    · exact fun other which hne => hwalked.standing hgone other which hne
    · intro k definition _ hdefinition
      rwa [← hwalked.definitions]

/-! ## Detail -/

/-- What giving up one execution's detail does to the rest of the projection. -/
structure Shed (before after : WorkflowState) : Prop where
  order : after.order = before.order
  definitions : after.definitions = before.definitions
  balanced : Balanced before → Balanced after
  standing : ∀ other which, after.standing other which = before.standing other which
  messages : after.messageCount ≤ before.messageCount
  artifacts : after.artifactCount ≤ before.artifactCount
  /-- Every execution is held as it was, but for detail. -/
  held : ∀ (k : Key) (held : Held), after.held[k]? = some held →
    ∃ old, before.held[k]? = some old ∧ held.summary.status = old.summary.status ∧
      held.messages.length ≤ old.messages.length ∧ held.artifactsHeld ≤ old.artifactsHeld

theorem Shed.rfl' (state : WorkflowState) : Shed state state :=
  ⟨rfl, rfl, fun h => h, fun _ _ => rfl, Nat.le_refl _, Nat.le_refl _,
    fun _ held hheld => ⟨held, hheld, rfl, Nat.le_refl _, Nat.le_refl _⟩⟩

theorem Shed.trans (h : Shed first second) (h' : Shed second third) : Shed first third where
  order := h'.order.trans h.order
  definitions := h'.definitions.trans h.definitions
  balanced := fun hbalanced => h'.balanced (h.balanced hbalanced)
  standing := fun other which => (h'.standing other which).trans (h.standing other which)
  messages := Nat.le_trans h'.messages h.messages
  artifacts := Nat.le_trans h'.artifacts h.artifacts
  held := by
    intro k held hheld
    obtain ⟨mid, hmid, hstatus, hmessages, hartifacts⟩ := h'.held k held hheld
    obtain ⟨old, hold, hstatus', hmessages', hartifacts'⟩ := h.held k mid hmid
    exact ⟨old, hold, hstatus.trans hstatus', Nat.le_trans hmessages hmessages',
      Nat.le_trans hartifacts hartifacts'⟩

theorem shed_insert {old new : Held} (hold : state.held[key]? = some old)
    (hsummary : new.summary = old.summary) (hmessages : new.messages.length ≤ old.messages.length)
    (hartifacts : new.artifactsHeld ≤ old.artifactsHeld)
    (hheld : after.held = state.held.insert key new) (horder : after.order = state.order)
    (hdefinitions : after.definitions = state.definitions)
    (hmessageCount : after.messageCount =
      state.messageCount - (old.messages.length - new.messages.length))
    (hartifactCount : after.artifactCount =
      state.artifactCount - (old.artifactsHeld - new.artifactsHeld)) : Shed state after where
  order := horder
  definitions := hdefinitions
  balanced := by
    intro h
    have hle : old.messages.length ≤ state.messageCount := by
      have htally : Table.tally (fun _ (held : Held) => held.messages.length) state.held =
          old.messages.length + _ := tally_eq_add hold
      rw [h.messages, messagesHeld]
      omega
    have hle' : old.artifactsHeld ≤ state.artifactCount := by
      have htally : Table.tally (fun _ (held : Held) => held.artifactsHeld) state.held =
          old.artifactsHeld + _ := tally_eq_add hold
      rw [h.artifacts, artifactsHeld]
      omega
    exact h.replace hold (by rw [Held.identity, hsummary]; rfl) hheld horder (by omega) (by omega)
  standing := by
    intro other which
    have hkey : new.definitionKey = old.definitionKey := by rw [Held.definitionKey, hsummary]; rfl
    rw [standing, standing, hheld, tally_insert, tally_eq_add hold, hkey, hsummary]
  messages := by omega
  artifacts := by omega
  held := by
    intro k held hk
    rw [hheld] at hk
    obtain ⟨rfl, rfl⟩ | ⟨-, hk⟩ := of_insert hk
    · exact ⟨old, hold, by rw [hsummary], hmessages, hartifacts⟩
    · exact ⟨held, hk, rfl, Nat.le_refl _, Nat.le_refl _⟩

theorem artifactsHeld_cleared (held : Held) :
    Held.artifactsHeld { held with
      nodes := held.nodes.map fun _ node => { node with artifacts := [] } } = 0 := by
  rw [Held.artifactsHeld, tally_map]
  exact Table.tally_zero held.nodes

theorem shed_shedMessages (config : WorkflowConfig) (hheld : state.held[key]? = some held) :
    Shed state (state.shedMessages config key held) := by
  unfold shedMessages
  split
  · refine shed_insert hheld ?_ ?_ ?_ rfl rfl rfl ?_ ?_ <;> simp [Held.artifactsHeld]
  · exact .rfl' state

theorem shed_shedArtifacts (config : WorkflowConfig) (hheld : state.held[key]? = some held) :
    Shed state (state.shedArtifacts config key held) := by
  unfold shedArtifacts
  split
  · refine shed_insert hheld ?_ ?_ ?_ rfl rfl rfl ?_ ?_ <;> simp [artifactsHeld_cleared]
  · exact .rfl' state

theorem shed_shedOne (config : WorkflowConfig) (state : WorkflowState) (key : Key) :
    Shed state (shedOne config state key) := by
  unfold shedOne
  split
  · exact .rfl' state
  · cases hheld : state.held[key]? with
    | none => exact .rfl' state
    | some held =>
      dsimp only
      split
      · exact .rfl' state
      · have hmessages := shed_shedMessages config hheld
        cases hshed : (state.shedMessages config key held).held[key]? with
        | none => exact hmessages
        | some shed => exact hmessages.trans (shed_shedArtifacts config hshed)

theorem shed_foldl (config : WorkflowConfig) (keys : List Key) (state : WorkflowState) :
    Shed state (keys.foldl (shedOne config) state) := by
  induction keys generalizing state with
  | nil => exact .rfl' state
  | cons key keys ih => exact (shed_shedOne config state key).trans (ih _)

/-- An execution that is not running has no messages left where there are too many in all. -/
theorem messages_shedOne
    (hcount : config.maxMessagesTotal < (shedOne config state key).messageCount)
    (hheld : (shedOne config state key).held[key]? = some held)
    (hfinished : held.summary.status ≠ .running) : held.messages.length = 0 := by
  have hbefore := Nat.lt_of_lt_of_le hcount (shed_shedOne config state key).messages
  unfold shedOne at hheld
  split at hheld
  · rename_i hwithin
    simp only [within, Bool.and_eq_true, decide_eq_true_eq] at hwithin
    omega
  · cases hrow : state.held[key]? with
    | none => simp [hrow] at hheld
    | some old =>
      simp only [hrow] at hheld
      split at hheld
      · rename_i hrunning
        cases some.inj (hrow.symm.trans hheld)
        exact absurd hrunning hfinished
      · have hempty : ∀ shed, (state.shedMessages config key old).held[key]? = some shed →
            shed.messages = [] := by
          intro shed hshed
          unfold shedMessages at hshed
          split at hshed
          · rw [Table.getElem?_insert, if_pos rfl] at hshed
            cases some.inj hshed
            rfl
          · rename_i hnone
            cases some.inj (hrow.symm.trans hshed)
            simpa [hbefore] using hnone
        cases hshed : (state.shedMessages config key old).held[key]? with
        | none => simp [hshed] at hheld
        | some shed =>
          rw [hshed, elim_some] at hheld
          obtain ⟨before, hold, -, hle, -⟩ :=
            (shed_shedArtifacts config hshed).held key held hheld
          cases some.inj (hshed.symm.trans hold)
          simpa [hempty shed hshed] using hle

/-- Nor has it artifacts left. -/
theorem artifacts_shedOne
    (hcount : config.maxArtifactsTotal < (shedOne config state key).artifactCount)
    (hheld : (shedOne config state key).held[key]? = some held)
    (hfinished : held.summary.status ≠ .running) : held.artifactsHeld = 0 := by
  have hbefore := Nat.lt_of_lt_of_le hcount (shed_shedOne config state key).artifacts
  unfold shedOne at hheld hcount
  split at hheld
  · rename_i hwithin
    simp only [within, Bool.and_eq_true, decide_eq_true_eq] at hwithin
    omega
  · rename_i hpast
    rw [if_neg hpast] at hcount
    cases hrow : state.held[key]? with
    | none => simp [hrow] at hheld
    | some old =>
      simp only [hrow] at hheld hcount
      split at hheld
      · rename_i hrunning
        cases some.inj (hrow.symm.trans hheld)
        exact absurd hrunning hfinished
      · rename_i hended
        rw [if_neg hended] at hcount
        cases hshed : (state.shedMessages config key old).held[key]? with
        | none => simp [hshed] at hheld
        | some shed =>
          rw [hshed, elim_some] at hheld hcount
          have hle := (shed_shedArtifacts config hshed).artifacts
          unfold shedArtifacts at hheld
          rw [if_pos (by omega), Table.getElem?_insert, if_pos rfl] at hheld
          cases some.inj hheld
          exact artifactsHeld_cleared shed

/-- What each execution has none of, where there is too much in all, none of them has. -/
theorem capped_foldl (count : WorkflowState → Nat) (worth : Held → Nat) {cap : Nat}
    (hcount : ∀ before after, Shed before after → count after ≤ count before)
    (hworth : ∀ held old : Held, held.messages.length ≤ old.messages.length →
      held.artifactsHeld ≤ old.artifactsHeld → worth held ≤ worth old)
    (hone : ∀ state key held, cap < count (shedOne config state key) →
      (shedOne config state key).held[key]? = some held → held.summary.status ≠ .running →
        worth held = 0) (keys : List Key) (state : WorkflowState)
    (hpast : cap < count (keys.foldl (shedOne config) state)) :
    ∀ key ∈ keys, ∀ held, (keys.foldl (shedOne config) state).held[key]? = some held →
      held.summary.status ≠ .running → worth held = 0 := by
  induction keys using List.reverseRecOn with
  | nil => exact fun _ h => absurd h (by simp)
  | append_singleton keys last ih =>
    rw [foldl_append, foldl_cons, foldl_nil] at hpast ⊢
    have hshed := shed_shedOne config (keys.foldl (shedOne config) state) last
    have hbefore := Nat.lt_of_lt_of_le hpast (hcount _ _ hshed)
    intro key hkey held hheld hfinished
    rcases mem_append.mp hkey with hkey | hkey
    · obtain ⟨old, hold, hstatus, hmessages, hartifacts⟩ := hshed.held key held hheld
      have hnone := ih hbefore key hkey old hold (by rwa [← hstatus])
      have hle := hworth held old hmessages hartifacts
      omega
    · cases mem_singleton.mp hkey
      exact hone _ _ held hpast hheld hfinished

theorem capped_of_running {count : WorkflowState → Nat} {worth : Held → Nat} {cap : Nat}
    (hcount : count state = Table.tally (fun _ held => worth held) state.held)
    (hnone : cap < count state → ∀ (key : Key) (held : Held), state.held[key]? = some held →
      held.summary.status ≠ .running → worth held = 0)
    (hrunning : state.ofRunning worth ≤ cap) : count state ≤ cap := by
  by_contra hpast
  have hnone := hnone (by omega)
  have hall : Table.tally (fun _ held => worth held) state.held = state.ofRunning worth := by
    apply tally_congr_of_mem
    intro key held hheld
    split
    · rfl
    · rename_i hfinished
      exact hnone key held hheld hfinished
  omega

/-- What is given up leaves the totals true, and within their caps where it can. -/
theorem Balanced.shedDetail (h : Balanced state) (config : WorkflowConfig) :
    ((state.shedDetail config).ofRunning (fun held => held.messages.length) ≤
        config.maxMessagesTotal →
      (state.shedDetail config).messageCount ≤ config.maxMessagesTotal) ∧
    ((state.shedDetail config).ofRunning Held.artifactsHeld ≤ config.maxArtifactsTotal →
      (state.shedDetail config).artifactCount ≤ config.maxArtifactsTotal) := by
  have hshed : Shed state (state.shedDetail config) := shed_foldl config state.order state
  have hbalanced := hshed.balanced h
  have hlisted : ∀ (key : Key) (held : Held),
      (state.shedDetail config).held[key]? = some held → key ∈ state.order := by
    intro key held hheld
    rw [← hshed.order]
    exact hbalanced.listed key (Table.mem_of_getElem? hheld)
  constructor
  · apply capped_of_running hbalanced.messages
    intro hpast key held hheld
    exact capped_foldl (·.messageCount) (·.messages.length) (fun _ _ h => h.messages)
      (fun _ _ h _ => h) (fun _ _ _ => messages_shedOne) state.order state hpast key
      (hlisted key held hheld) held hheld
  · apply capped_of_running hbalanced.artifacts
    intro hpast key held hheld
    exact capped_foldl (·.artifactCount) Held.artifactsHeld (fun _ _ h => h.artifacts)
      (fun _ _ _ h => h) (fun _ _ _ => artifacts_shedOne) state.order state hpast key
      (hlisted key held hheld) held hheld

/-! ## One event -/

/-- The execution an event belongs to, before it is folded in. -/
def executionOf (state : WorkflowState) (event : RecordedEvent) (workflowId executionId : String) :
    Held :=
  state.held[keyOf event.metadata.project executionId]?.getD
    (Held.new event executionId workflowId)

/-- An event is counted as it is kept: it is no message its execution has no room for, it names
the workflow of its execution, and what it evicts are executions of that workflow. -/
def Admits (floats : Floats) (config : WorkflowConfig) (state : WorkflowState)
    (event : RecordedEvent) : Prop :=
  ∀ workflowId ∈ event.metadata.workflowId, ∀ executionId ∈ event.metadata.workflowRunId,
    (state.executionOf event workflowId executionId).refuses event config = false ∧
    (state.executionOf event workflowId executionId).summary.workflowId = workflowId ∧
    ∀ gone ∈ ((folded floats config state event workflowId executionId).evicting config).gone,
      ∀ held ∈ (folded floats config state event workflowId executionId).held[gone]?,
        held.definitionKey = keyOf event.metadata.project workflowId

instance (floats : Floats) (config : WorkflowConfig) (state : WorkflowState)
    (event : RecordedEvent) : Decidable (Admits floats config state event) :=
  inferInstanceAs (Decidable (∀ workflowId ∈ event.metadata.workflowId,
    ∀ executionId ∈ event.metadata.workflowRunId,
      (state.executionOf event workflowId executionId).refuses event config = false ∧
      (state.executionOf event workflowId executionId).summary.workflowId = workflowId ∧
      ∀ gone ∈ ((folded floats config state event workflowId executionId).evicting config).gone,
        ∀ held ∈ (folded floats config state event workflowId executionId).held[gone]?,
          held.definitionKey = keyOf event.metadata.project workflowId))

theorem identity_declare {workflowId : String} {k : Key}
    (hheld : (state.declare event workflowId config).held[k]? = some held) :
    ∃ old, state.held[k]? = some old ∧ held.identity = old.identity := by
  have hevicted := ((catalogued_evictDefinitions ((state.declared event workflowId).adopted
    event.metadata.project workflowId config) config.maxDefinitions).2 k).held
  rw [declare, hevicted] at hheld
  unfold WorkflowState.adopted at hheld
  split at hheld
  · exact ⟨held, by rwa [(catalogued_declared state event workflowId).held] at hheld, rfl⟩
  · dsimp only at hheld
    rw [ExtTreeMap.getElem?_map, (catalogued_declared state event workflowId).held] at hheld
    obtain ⟨old, hold, rfl⟩ := map_eq_some_iff.mp hheld
    refine ⟨old, hold, ?_⟩
    split
    · simp
    · rfl

theorem getElem?_held_opened (config : WorkflowConfig) (state : WorkflowState)
    (event : RecordedEvent) (workflowId executionId : String) :
    ∃ held, (state.opened event workflowId executionId config).held[
        keyOf event.metadata.project executionId]? = some held ∧
      (state.held[keyOf event.metadata.project executionId]? = some held ∨
        state.held[keyOf event.metadata.project executionId]? = none ∧
          held.identity = (workflowId, event.metadata.project) ∧ held.messages = []) := by
  unfold WorkflowState.opened
  dsimp only
  split
  · rename_i hheld
    cases hrow : state.held[keyOf event.metadata.project executionId]? with
    | none => simp [ExtTreeMap.contains_eq_isSome_getElem?, hrow] at hheld
    | some held => exact ⟨held, rfl, .inl rfl⟩
  · rename_i hnew
    have hnone : state.held[keyOf event.metadata.project executionId]? = none :=
      ExtTreeMap.getElem?_eq_none (by simpa using hnew)
    rw [(catalogued_bumpDefinition _ _ _ _).held, Table.getElem?_insert, if_pos rfl]
    refine ⟨_, rfl, .inr ⟨hnone, ?_⟩⟩
    cases state.definitions[keyOf event.metadata.project workflowId]? with
    | none => exact ⟨rfl, rfl⟩
    | some definition =>
      exact ⟨(Held.identity_adopt _ _ _).trans rfl, (Held.messages_adopt _ _ _).trans rfl⟩

/-- An event folded in leaves the totals true, and the other workflows as they stand. -/
theorem Balanced.folded (h : Balanced state) (floats : Floats) (event : RecordedEvent)
    {workflowId executionId : String}
    (hroom : (state.executionOf event workflowId executionId).refuses event config = false)
    (hsame : (state.executionOf event workflowId executionId).summary.workflowId = workflowId) :
    Balanced (folded floats config state event workflowId executionId) ∧
      Confined (keyOf event.metadata.project workflowId) state
        (WorkflowState.folded floats config state event workflowId executionId) := by
  unfold WorkflowState.folded
  dsimp only
  generalize hdeclare : (if event.eventType = .workflowDeclared then
    state.declare event workflowId config else state) = declared
  have hdeclared : Balanced declared ∧
      Confined (keyOf event.metadata.project workflowId) state declared := by
    rw [← hdeclare]
    split
    · have hcatalogued := catalogued_declared state event workflowId
      obtain ⟨hadopted, hconfined⟩ := (h.catalogued hcatalogued).adopted event.metadata.project
        workflowId
      have hevicted := (catalogued_evictDefinitions ((state.declared event workflowId).adopted
        event.metadata.project workflowId config) config.maxDefinitions).2
          (keyOf event.metadata.project workflowId)
      exact ⟨hadopted.catalogued hevicted,
        (hcatalogued.confined.trans hconfined).trans hevicted.confined⟩
    · exact ⟨h, fun _ _ _ => rfl, fun _ _ _ h => h⟩
  obtain ⟨hopened, hconfined⟩ := hdeclared.1.opened event workflowId executionId
  obtain ⟨held, hheld, hwhich⟩ :=
    getElem?_held_opened config declared event workflowId executionId
  have hfits : held.refuses event config = false ∧ held.summary.workflowId = workflowId := by
    by_cases htype : event.eventType = .workflowDeclared
    · refine ⟨by simp [Held.refuses, htype], ?_⟩
      rw [if_pos htype] at hdeclare
      rcases hwhich with hbefore | ⟨-, hidentity, -⟩
      · rw [← hdeclare] at hbefore
        obtain ⟨old, hold, hidentity⟩ := identity_declare hbefore
        rw [executionOf, hold] at hsame
        exact (congrArg Prod.fst hidentity).trans hsame
      · exact congrArg Prod.fst hidentity
    · rw [if_neg htype] at hdeclare
      subst hdeclare
      rcases hwhich with hbefore | ⟨hnone, hidentity, hmessages⟩
      · rw [executionOf, hbefore] at hroom hsame
        exact ⟨hroom, hsame⟩
      · rw [executionOf, hnone] at hroom
        refine ⟨?_, congrArg Prod.fst hidentity⟩
        simp only [Held.refuses, hmessages, Held.new, getD_none] at hroom ⊢
        grind
  have hkey : held.definitionKey = keyOf event.metadata.project workflowId := by
    rw [Held.definitionKey, hfits.2, keyOf, hopened.inScope _ held hheld]
    rfl
  obtain ⟨hfolded, hfoldedConfined⟩ := hopened.foldedAt floats hheld hfits.1
  rw [hkey] at hfoldedConfined
  exact ⟨hfolded, (hdeclared.2.trans hconfined).trans hfoldedConfined⟩

/-- What holds in every state that is reached. -/
structure Kept (config : WorkflowConfig) (state : WorkflowState) : Prop where
  balanced : Balanced state
  accounted : Accounted config state

theorem Balanced.refreshed (h : Balanced state) {at' : OffsetDateTime}
    (hmessages : state.ofRunning (fun held => held.messages.length) ≤ config.maxMessagesTotal →
      state.messageCount ≤ config.maxMessagesTotal)
    (hartifacts : state.ofRunning Held.artifactsHeld ≤ config.maxArtifactsTotal →
      state.artifactCount ≤ config.maxArtifactsTotal)
    (hothers : ∀ (k : Key) (definition : WorkflowDefinition), k ≠ key →
      state.definitions[k]? = some definition → definition.counts = state.countsOf k) :
    Kept config ((state.refreshDefinition key at').evictDefinitions config.maxDefinitions) := by
  have hrefreshed : Catalogued key state (state.refreshDefinition key at') := by
    unfold refreshDefinition
    split
    · exact ⟨rfl, rfl, rfl, rfl, fun _ _ _ h => h⟩
    · refine ⟨rfl, rfl, rfl, rfl, fun k other hne hother => ?_⟩
      rwa [Table.getElem?_insert, if_neg (Ne.symm hne)] at hother
  have hcounts : ∀ (k : Key) (definition : WorkflowDefinition),
      (state.refreshDefinition key at').definitions[k]? = some definition →
        definition.counts = state.countsOf k := by
    intro k definition hdefinition
    by_cases hkey : k = key
    · subst hkey
      unfold refreshDefinition at hdefinition
      split at hdefinition
      · rename_i hnone
        rw [hnone] at hdefinition
        cases hdefinition
      · rw [Table.getElem?_insert, if_pos rfl] at hdefinition
        cases some.inj hdefinition
        rfl
    · exact hothers k definition hkey (hrefreshed.others k definition hkey hdefinition)
  obtain ⟨hleft, hevicted⟩ :=
    catalogued_evictDefinitions (state.refreshDefinition key at') config.maxDefinitions
  have hcatalogued := hrefreshed.trans (hevicted key)
  have hbalanced := h.catalogued hcatalogued
  refine ⟨hbalanced, hbalanced.messages, hbalanced.artifacts, ?_, ?_, ?_⟩
  · rw [ofRunning, hcatalogued.held, hcatalogued.messageCount]
    exact hmessages
  · rw [ofRunning, hcatalogued.held, hcatalogued.artifactCount]
    exact hartifacts
  · intro k definition hdefinition
    rw [hcounts k definition (hleft k definition hdefinition), countsOf, countsOf, hcatalogued.held]

theorem Kept.apply {floats : Floats} (h : Kept config state)
    (hadmits : Admits floats config state event) :
    Kept config (apply floats config state event) := by
  unfold WorkflowState.apply
  split
  · rename_i workflowId executionId hworkflow hexecution
    obtain ⟨hroom, hsame, hgone⟩ := hadmits workflowId hworkflow executionId hexecution
    obtain ⟨hfolded, hconfined⟩ := h.balanced.folded floats event hroom hsame
    obtain ⟨hevicted, hevictedConfined⟩ := hfolded.evict hgone
    have hconfined := hconfined.trans hevictedConfined
    generalize (WorkflowState.folded floats config state event workflowId executionId).evict
      config = evicted at hevicted hconfined ⊢
    have hshed : Shed evicted (evicted.shedDetail config) := shed_foldl config _ _
    obtain ⟨hmessages, hartifacts⟩ := hevicted.shedDetail config
    have hbalanced := hshed.balanced hevicted
    have hothers : ∀ other which, other ≠ keyOf event.metadata.project workflowId →
        (evicted.shedDetail config).standing other which = state.standing other which :=
      fun other which hne => (hshed.standing other which).trans (hconfined.standing other which hne)
    refine hbalanced.refreshed hmessages hartifacts fun k definition hne hdefinition => ?_
    rw [hshed.definitions] at hdefinition
    rw [h.accounted.definitions k definition (hconfined.others k definition hne hdefinition)]
    exact (countsOf_congr fun which => hothers k which hne).symm
  · exact h

end WorkflowState

/-- The projection, event after event. -/
def projecting (floats : Floats) (config : WorkflowConfig) :
    Machine WorkflowState RecordedEvent Unit where
  step state event := some ([], state.apply floats config event)

/-- **The totals are the true ones** after any events that are counted as they are kept. -/
theorem totals_are_true (floats : Floats) (config : WorkflowConfig) (events : List RecordedEvent)
    (hadmits : ∀ st ∈ (projecting floats config).run {} events,
      WorkflowState.Admits floats config st.before st.input) :
    WorkflowState.Accounted config ((projecting floats config).last {} events) := by
  have hnew : WorkflowState.Kept config {} := by
    refine ⟨⟨rfl, rfl, by simp, by simp⟩, rfl, rfl, fun _ => Nat.zero_le _,
      fun _ => Nat.zero_le _, ?_⟩
    simp
  have hrun := Machine.accum_run (M := projecting floats config)
    (fun _ state => WorkflowState.Kept config state) (WorkflowState.Admits floats config)
    (fun _ state event out after h hadmits hstep => by
      simp only [projecting] at hstep
      cases hstep
      exact h.apply hadmits) (h := []) hnew hadmits
  exact hrun.accounted

/-! ## Totals that are not -/

/-- An event of an execution of a workflow. -/
def eventOf (eventType : EventType) (position : UInt64) (id workflow execution : String)
    (fields : List (String × Value)) : RecordedEvent where
  eventType := eventType
  data := .object fields
  metadata := ⟨id, "run:run-1", position, 1, 1, none, "", "", "run-1", none, some workflow,
    some execution, none, none, none, none, none, none, none, "", 1,
    ⟨"service", none, "rust", none⟩, 1, 1⟩

def noNumbers : Floats := ⟨fun n => n, fun n => n.toUInt64, fun _ => none, fun _ => 0⟩

def messageOf (id execution : String) : RecordedEvent :=
  eventOf .agentMessage 1 id "import" execution [("from", .string "a"), ("to", .string "b")]

/-- Two messages and an artifact of one execution, which then ends. -/
def handedOn : List RecordedEvent :=
  [messageOf "m-1" "one", messageOf "m-2" "one",
    eventOf .artifactProduced 3 "m-3" "import" "one"
      [("node", .string "acquire"), ("uri", .string "s3://house/acquire.json")],
    eventOf .runCompleted 4 "m-4" "import" "one" []]

theorem handedOn_totals :
    WorkflowState.Accounted {} ((projecting noNumbers {}).last {} handedOn) :=
  totals_are_true noNumbers {} handedOn (by decide +kernel)

/-- Room for one message of an execution, and for one execution. -/
def small : WorkflowConfig := { maxMessagesPerExecution := 1, maxExecutions := 1 }

/-- A second message is counted and not kept; and a workflow whose only execution was evicted
still counts it. -/
theorem totals_drift :
    ¬ WorkflowState.Accounted small
        ((projecting noNumbers small).last {} [messageOf "m-1" "one", messageOf "m-2" "one"]) ∧
      ¬ WorkflowState.Accounted small
        ((projecting noNumbers small).last {}
          [eventOf .runCompleted 1 "m-1" "import" "one" [],
            eventOf .runStarted 2 "m-2" "export" "two" []]) := by
  constructor
  · intro h
    exact absurd h.messages (by decide +kernel)
  · intro h
    have hcounts : ∀ definition ∈ ((projecting noNumbers small).last {}
        [eventOf .runCompleted 1 "m-1" "import" "one" [],
          eventOf .runStarted 2 "m-2" "export" "two" []]).definitions[keyOf none "import"]?,
        definition.counts = ((projecting noNumbers small).last {}
          [eventOf .runCompleted 1 "m-1" "import" "one" [],
            eventOf .runStarted 2 "m-2" "export" "two" []]).countsOf (keyOf none "import") :=
      fun definition hdefinition => h.definitions _ definition hdefinition
    exact absurd hcounts (by decide +kernel)

end Aiwatcher.Workflows
