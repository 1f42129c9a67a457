import Aiwatcher.Workflows.Frames

/-!
# Aiwatcher.Workflows.Seen

What an execution says of the events it was folded from (`Held.Seen`), kept by every event of it
and by what the others' events do to it; and that one of them folded in again does not move it,
where it is the last of its kind (`Held.Seen.unmoved`).
-/

namespace Aiwatcher.Workflows

open Library List Std

/-! ## Outcomes -/

/-- Where a node stands, since when, until when, and what it failed with. -/
def NodeState.outcome (node : NodeState) :
    NodeStatus × Option OffsetDateTime × Option OffsetDateTime × Option String :=
  (node.status, node.startedAt, node.endedAt, node.error)

/-- The outcome of a node nothing has started. -/
def untouched : NodeStatus × Option OffsetDateTime × Option OffsetDateTime × Option String :=
  (.pending, none, none, none)

/-- Where an execution stands, since when, until when, and what it failed with. -/
def Held.outcome (held : Held) :
    ExecutionStatus × OffsetDateTime × Option OffsetDateTime × Option String :=
  (held.summary.status, held.summary.startedAt, held.summary.endedAt, held.summary.error)

/-- Nodes that stand as they did, and new ones nothing has started. -/
structure Alike (before after : BTreeMap String NodeState) : Prop where
  kept : ∀ (n : String) (node : NodeState), before[n]? = some node →
    ∃ now, after[n]? = some now ∧ now.outcome = node.outcome
  only : ∀ (n : String) (now : NodeState), after[n]? = some now →
    (∃ node, before[n]? = some node ∧ now.outcome = node.outcome) ∨
      (before[n]? = none ∧ now.outcome = untouched)

namespace Alike

variable {before after : BTreeMap String NodeState}

theorem rfl' (nodes : BTreeMap String NodeState) : Alike nodes nodes :=
  ⟨fun _ node hnode => ⟨node, hnode, rfl⟩, fun _ node hnode => .inl ⟨node, hnode, rfl⟩⟩

theorem trans {third : BTreeMap String NodeState} (h : Alike before after)
    (h' : Alike after third) : Alike before third where
  kept := by
    intro n node hnode
    obtain ⟨mid, hmid, houtcome⟩ := h.kept n node hnode
    obtain ⟨now, hnow, houtcome'⟩ := h'.kept n mid hmid
    exact ⟨now, hnow, houtcome'.trans houtcome⟩
  only := by
    intro n now hnow
    rcases h'.only n now hnow with ⟨mid, hmid, houtcome⟩ | ⟨hnone, houtcome⟩
    · rcases h.only n mid hmid with ⟨node, hnode, houtcome'⟩ | ⟨hnone, houtcome'⟩
      · exact .inl ⟨node, hnode, houtcome.trans houtcome'⟩
      · exact .inr ⟨hnone, houtcome.trans houtcome'⟩
    · right
      refine ⟨?_, houtcome⟩
      cases hnode : before[n]? with
      | none => rfl
      | some node =>
        obtain ⟨mid, hmid, -⟩ := h.kept n node hnode
        rw [hnone] at hmid
        cases hmid

theorem insert {n : String} {now : NodeState}
    (hold : ∀ node, before[n]? = some node → now.outcome = node.outcome)
    (hnew : before[n]? = none → now.outcome = untouched) :
    Alike before (before.insert n now) where
  kept := by
    intro k node hnode
    rw [Table.getElem?_insert]
    split
    · rename_i hkey
      subst hkey
      exact ⟨now, rfl, hold node hnode⟩
    · exact ⟨node, hnode, rfl⟩
  only := by
    intro k node hnode
    obtain ⟨rfl, rfl⟩ | ⟨-, hnode⟩ := Table.of_insert hnode
    · cases hbefore : before[n]? with
      | none => exact .inr ⟨rfl, hnew hbefore⟩
      | some old => exact .inl ⟨old, rfl, hold old hbefore⟩
    · exact .inl ⟨node, hnode, rfl⟩

/-- Some node stands so before where one does after, but for those nothing has started. -/
theorem exists_iff (h : Alike before after) {P : NodeStatus × Option OffsetDateTime ×
    Option OffsetDateTime × Option String → Prop} (hnew : ¬ P untouched) :
    (∃ (n : String) (now : NodeState), after[n]? = some now ∧ P now.outcome) ↔
      ∃ (n : String) (node : NodeState), before[n]? = some node ∧ P node.outcome := by
  constructor
  · rintro ⟨n, now, hnow, hstands⟩
    rcases h.only n now hnow with ⟨node, hnode, houtcome⟩ | ⟨-, houtcome⟩
    · exact ⟨n, node, hnode, houtcome ▸ hstands⟩
    · exact absurd (houtcome ▸ hstands) hnew
  · rintro ⟨n, node, hnode, hstands⟩
    obtain ⟨now, hnow, houtcome⟩ := h.kept n node hnode
    exact ⟨n, now, hnow, houtcome.symm ▸ hstands⟩

end Alike

/-! ## Recounting -/

namespace Held

theorem pos_countNodes {held : Held} {status : NodeStatus} : 0 < held.countNodes status ↔
    ∃ (n : String) (node : NodeState), held.nodes[n]? = some node ∧ node.outcome.1 = status := by
  rw [countNodes, countP_pos_iff]
  constructor
  · rintro ⟨node, hnode, hstatus⟩
    obtain ⟨n, hn⟩ := BTreeMap.mem_values.mp hnode
    exact ⟨n, node, hn, by simpa [NodeState.outcome] using hstatus⟩
  · rintro ⟨n, node, hn, hstatus⟩
    exact ⟨node, BTreeMap.mem_values.mpr ⟨n, hn⟩, by simpa [NodeState.outcome] using hstatus⟩

theorem mem_ends {held : Held} {at' : OffsetDateTime} :
    at' ∈ (BTreeMap.values held.nodes).filterMap NodeState.endedAt ↔
      ∃ (n : String) (node : NodeState), held.nodes[n]? = some node ∧
        node.outcome.2.2.1 = some at' := by
  rw [mem_filterMap]
  constructor
  · rintro ⟨node, hnode, hended⟩
    obtain ⟨n, hn⟩ := BTreeMap.mem_values.mp hnode
    exact ⟨n, node, hn, hended⟩
  · rintro ⟨n, node, hn, hended⟩
    exact ⟨node, BTreeMap.mem_values.mpr ⟨n, hn⟩, hended⟩

theorem max?_congr {xs ys : List OffsetDateTime} (h : ∀ at', at' ∈ xs ↔ at' ∈ ys) :
    xs.max? = ys.max? := by
  cases hxs : xs.max? with
  | none =>
    have hempty : xs = [] := max?_eq_none_iff.mp hxs
    have hnil : ys = [] := eq_nil_iff_forall_not_mem.mpr fun at' hmem => by
      simpa [hempty] using (h at').mpr hmem
    rw [hnil]
    rfl
  | some last =>
    have hlast := max?_eq_some_iff.mp hxs
    symm
    rw [max?_eq_some_iff]
    exact ⟨(h last).mp hlast.1, fun at' hmem => hlast.2 at' ((h at').mpr hmem)⟩

theorem outcome_recount (held : Held) : held.recount.outcome = match held.managed with
    | some managed => (managed.status, held.summary.startedAt, managed.endedAt, managed.error)
    | none => (held.observedStatus, held.summary.startedAt,
        if held.observedStatus = .running then none else some held.observedEnd,
        held.summary.error) := by
  unfold recount
  cases held.managed with
  | some managed => rfl
  | none =>
    dsimp only
    split
    · rename_i hrunning
      rw [hrunning]
      rfl
    · rfl

theorem outcome_recount_congr {held other : Held} (hmanaged : other.managed = held.managed)
    (hstarted : other.summary.startedAt = held.summary.startedAt)
    (hnodes : Alike held.nodes other.nodes)
    (hruns : held.managed = none → other.openRuns = held.openRuns ∧
      other.finishedRuns = held.finishedRuns ∧ other.summary.error = held.summary.error ∧
      (held.observedStatus ≠ .running → other.summary.endedAt = held.summary.endedAt)) :
    other.recount.outcome = held.recount.outcome := by
  rw [outcome_recount, outcome_recount, hmanaged, hstarted]
  cases hnone : held.managed with
  | some managed => rfl
  | none =>
    obtain ⟨hopen, hfinished, herror, hended⟩ := hruns hnone
    have hcount : ∀ status, status ≠ .pending →
        (0 < other.countNodes status ↔ 0 < held.countNodes status) := by
      intro status hpending
      rw [pos_countNodes, pos_countNodes]
      exact hnodes.exists_iff (P := fun outcome => outcome.1 = status) (Ne.symm hpending)
    have hstatus : other.observedStatus = held.observedStatus := by
      simp only [observedStatus, hcount .failed (by simp), hcount .running (by simp),
        hcount .succeeded (by simp), hopen, hfinished, herror]
    dsimp only
    rw [hstatus, herror]
    by_cases hrunning : held.observedStatus = .running
    · simp [hrunning]
    · have hends : other.observedEnd = held.observedEnd := by
        rw [observedEnd, observedEnd, hended hrunning, hstarted, max?_congr]
        intro at'
        rw [mem_ends, mem_ends]
        exact hnodes.exists_iff (P := fun outcome => outcome.2.2.1 = some at') (by simp [untouched])
      simp [hrunning, hends]

theorem recount_fields (held : Held) : held.recount.managed = held.managed ∧
    held.recount.openRuns = held.openRuns ∧ held.recount.finishedRuns = held.finishedRuns ∧
    held.recount.attempts = held.attempts ∧
    held.recount.summary.startedAt = held.summary.startedAt ∧
    (held.managed = none → held.recount.summary.error = held.summary.error) := by
  unfold recount
  split
  · rename_i hmanaged
    exact ⟨rfl, rfl, rfl, rfl, rfl, fun hnone => by rw [hnone] at hmanaged; cases hmanaged⟩
  · split <;> exact ⟨rfl, rfl, rfl, rfl, rfl, fun _ => rfl⟩

theorem outcome_recount_recount (held : Held) :
    held.recount.recount.outcome = held.recount.outcome := by
  obtain ⟨hmanaged, hopen, hfinished, -, hstarted, herror⟩ := recount_fields held
  rw [outcome_recount, hmanaged, hstarted]
  cases hnone : held.managed with
  | some managed => rw [outcome_recount, hnone]
  | none =>
    have hstatus : held.recount.observedStatus = held.observedStatus := by
      simp [observedStatus, countNodes, hopen, hfinished, herror hnone]
    dsimp only
    rw [hstatus, herror hnone, outcome_recount, hnone]
    by_cases hrunning : held.observedStatus = .running
    · simp [hrunning]
    · have hended : held.recount.summary.endedAt = some held.observedEnd := by
        simp [recount, hnone, hrunning]
      have hends : held.recount.observedEnd = held.observedEnd := by
        rw [observedEnd, hended, nodes_recount, hstarted, Option.getD_some]
        exact max_eq_right (Int.le_max_left _ _)
      simp [hrunning, hends]

end Held

/-! ## What an execution says of its events -/

/-- Whether an event is of a step of a node. -/
def stepsOn (n : String) (event : RecordedEvent) : Bool :=
  event.eventType.subject = .step && nodeKey event = some n

/-- The last event of a node's steps. -/
def lastStep (n : String) (events : List RecordedEvent) : Option RecordedEvent :=
  (events.filter (stepsOn n)).getLast?

/-- A node stands as a step's event left it. -/
def NodeState.StandsAs (node : NodeState) (event : RecordedEvent) : Prop :=
  match event.eventType.phase with
  | some .start => node.status = .running
  | some (.ended ok) => node.status = (if ok then .succeeded else .failed) ∧
      node.endedAt = some event.metadata.occurredAt ∧ (ok = false → node.error = Held.errorOf event)
  | _ => True

/-- What is known of the runs of an execution. -/
structure RunsTold (held : Held) (events : List RecordedEvent) : Prop where
  started : ∀ event ∈ events, event.eventType.subject = .run →
    event.eventType.phase = some .start →
      event.metadata.runId ∈ held.openRuns ∨ event.metadata.runId ∈ held.finishedRuns
  ended : ∀ event ∈ events, ∀ ok, event.eventType.subject = .run →
    event.eventType.phase = some (.ended ok) → event.metadata.runId ∈ held.finishedRuns
  apart : ∀ runId ∈ held.finishedRuns, runId ∉ held.openRuns
  failed : ∀ event ∈ events, event.eventType.subject = .run →
    event.eventType.phase = some (.ended false) →
      held.managed.isSome = true ∨ held.summary.error.isSome = true

/-- What is known of the nodes of an execution. -/
structure StepsTold (maxNodes : Nat) (held : Held) (events : List RecordedEvent) : Prop where
  /-- A node that steps is there, or there was no room for it. -/
  roomed : ∀ event ∈ events, ∀ n, stepsOn n event = true →
    n ∈ held.nodes ∨ maxNodes ≤ held.nodes.size
  counted : ∀ event ∈ events, ∀ n, stepsOn n event = true → event.eventType.phase = some .start →
    event.metadata.spanKey ∈ held.attemptsOf n ∧
      ∀ node, held.nodes[n]? = some node → node.startedAt.isSome = true
  stands : ∀ (n : String) (node : NodeState), held.nodes[n]? = some node →
    ∀ event, lastStep n events = some event → node.StandsAs event

/-- An execution that was folded from some events, but for where it stands. -/
structure Held.Told (maxNodes : Nat) (held : Held) (events : List RecordedEvent) : Prop where
  started : ∀ event ∈ events, held.summary.startedAt ≤ event.metadata.occurredAt
  managed : held.managed = (events.filterMap lifecycleOf).getLast?
  runs : RunsTold held events
  steps : StepsTold maxNodes held events

/-- And settled. -/
structure Held.Seen (maxNodes : Nat) (held : Held) (events : List RecordedEvent) : Prop where
  told : held.Told maxNodes events
  settled : held.recount.outcome = held.outcome

theorem mem_of_lastStep {n : String} {events : List RecordedEvent} {event : RecordedEvent}
    (h : lastStep n events = some event) : event ∈ events ∧ stepsOn n event = true :=
  mem_filter.mp (mem_of_getLast? h)

theorem NodeState.StandsAs.congr {node now : NodeState} {event : RecordedEvent}
    (h : node.StandsAs event) (houtcome : now.outcome = node.outcome) : now.StandsAs event := by
  simp only [NodeState.outcome, Prod.mk.injEq] at houtcome
  unfold NodeState.StandsAs at h ⊢
  rw [houtcome.1, houtcome.2.2.1, houtcome.2.2.2]
  exact h

/-! ## What others' events do -/

/-- A change of an execution that starts, ends and fails nothing of it. -/
structure Undisturbed (maxNodes : Nat) (before after : Held) : Prop where
  managed : after.managed = before.managed
  started : after.summary.startedAt = before.summary.startedAt
  openRuns : after.openRuns = before.openRuns
  finishedRuns : after.finishedRuns = before.finishedRuns
  attempts : ∀ n, after.attemptsOf n = before.attemptsOf n
  error : before.managed = none → after.summary.error = before.summary.error
  nodes : Alike before.nodes after.nodes
  /-- A node is made only where there is room. -/
  grows : ∀ n, n ∉ before.nodes → n ∈ after.nodes → before.nodes.size < maxNodes
  size : before.nodes.size ≤ after.nodes.size

namespace Held

variable {maxNodes : Nat} {held other : Held} {events : List RecordedEvent}

theorem Told.undisturbed (h : held.Told maxNodes events) (hother : Undisturbed maxNodes held other) :
    other.Told maxNodes events := by
  have hold : ∀ event ∈ events, ∀ n, stepsOn n event = true → n ∈ other.nodes →
      n ∈ held.nodes := by
    intro event hevent n hstep hn
    by_contra hnew
    have hroom := hother.grows n hnew hn
    have := (h.steps.roomed event hevent n hstep).resolve_left hnew
    omega
  have hbefore : ∀ event ∈ events, ∀ n, stepsOn n event = true → ∀ now, other.nodes[n]? = some now →
      ∃ node, held.nodes[n]? = some node ∧ now.outcome = node.outcome := by
    intro event hevent n hstep now hnow
    rcases hother.nodes.only n now hnow with hsame | ⟨hnone, -⟩
    · exact hsame
    · have hmem := hold event hevent n hstep
        (Table.mem_of_getElem? hnow)
      rw [ExtTreeMap.mem_iff_isSome_getElem?, hnone] at hmem
      cases hmem
  refine ⟨?_, ?_, ⟨?_, ?_, ?_, ?_⟩, ⟨?_, ?_, ?_⟩⟩
  · rw [hother.started]
    exact h.started
  · rw [hother.managed]
    exact h.managed
  · rw [hother.openRuns, hother.finishedRuns]
    exact h.runs.started
  · rw [hother.finishedRuns]
    exact h.runs.ended
  · rw [hother.openRuns, hother.finishedRuns]
    exact h.runs.apart
  · intro event hevent hrun hfailed
    rw [hother.managed]
    cases hmanaged : held.managed with
    | some managed => exact .inl rfl
    | none =>
      rw [hother.error hmanaged]
      simpa [hmanaged] using h.runs.failed event hevent hrun hfailed
  · intro event hevent n hstep
    rcases h.steps.roomed event hevent n hstep with hmem | hfull
    · obtain ⟨node, hnode⟩ := Option.isSome_iff_exists.mp
        (ExtTreeMap.mem_iff_isSome_getElem?.mp hmem)
      obtain ⟨now, hnow, -⟩ := hother.nodes.kept n node hnode
      exact .inl (Table.mem_of_getElem? hnow)
    · exact .inr (Nat.le_trans hfull hother.size)
  · intro event hevent n hstep hstart
    obtain ⟨hkey, hstarted⟩ := h.steps.counted event hevent n hstep hstart
    refine ⟨by rwa [hother.attempts], fun now hnow => ?_⟩
    obtain ⟨node, hnode, houtcome⟩ := hbefore event hevent n hstep now hnow
    have hsame : now.startedAt = node.startedAt := congrArg (·.2.1) houtcome
    rw [hsame]
    exact hstarted node hnode
  · intro n now hnow event hlast
    obtain ⟨hevent, hstep⟩ := mem_of_lastStep hlast
    obtain ⟨node, hnode, houtcome⟩ := hbefore event hevent n hstep now hnow
    exact (h.steps.stands n node hnode event hlast).congr houtcome

theorem undisturbed_recount (held : Held) : Undisturbed maxNodes held held.recount := by
  obtain ⟨hmanaged, hopen, hfinished, hattempts, hstarted, herror⟩ := recount_fields held
  refine ⟨hmanaged, hstarted, hopen, hfinished, fun n => by rw [attemptsOf, hattempts]; rfl, herror,
    ?_, ?_, ?_⟩
  · rw [nodes_recount]
    exact .rfl' _
  · intro n hnew hn
    rw [nodes_recount] at hn
    exact absurd hn hnew
  · rw [nodes_recount]

theorem Told.recount (h : held.Told maxNodes events) : held.recount.Seen maxNodes events :=
  ⟨h.undisturbed (undisturbed_recount held), outcome_recount_recount held⟩

end Held

namespace Undisturbed

variable {maxNodes : Nat} {held other : Held}

theorem rfl' (held : Held) : Undisturbed maxNodes held held :=
  ⟨rfl, rfl, rfl, rfl, fun _ => rfl, fun _ => rfl, .rfl' _, fun _ hnew hn => absurd hn hnew,
    Nat.le_refl _⟩

theorem trans {third : Held} (h : Undisturbed maxNodes held other)
    (h' : Undisturbed maxNodes other third) : Undisturbed maxNodes held third where
  managed := h'.managed.trans h.managed
  started := h'.started.trans h.started
  openRuns := h'.openRuns.trans h.openRuns
  finishedRuns := h'.finishedRuns.trans h.finishedRuns
  attempts := fun n => (h'.attempts n).trans (h.attempts n)
  error := fun hnone => (h'.error (h.managed.trans hnone)).trans (h.error hnone)
  nodes := h.nodes.trans h'.nodes
  grows := by
    intro n hnew hn
    by_cases hmid : n ∈ other.nodes
    · exact h.grows n hnew hmid
    · exact Nat.lt_of_le_of_lt h.size (h'.grows n hmid hn)
  size := Nat.le_trans h.size h'.size

theorem outcome (h : Undisturbed maxNodes held other)
    (hended : held.managed = none → held.observedStatus ≠ .running →
      other.summary.endedAt = held.summary.endedAt) :
    other.recount.outcome = held.recount.outcome :=
  Held.outcome_recount_congr h.managed h.started h.nodes fun hnone =>
    ⟨h.openRuns, h.finishedRuns, h.error hnone, hended hnone⟩

/-- A node put in its own place, or a new one nothing has started where there is room. -/
theorem insert {n : String} {now : NodeState}
    (hold : ∀ node, held.nodes[n]? = some node → now.outcome = node.outcome)
    (hnew : held.nodes[n]? = none → now.outcome = untouched ∧ held.nodes.size < maxNodes)
    (hnodes : other.nodes = held.nodes.insert n now) (hmanaged : other.managed = held.managed)
    (hsummary : other.summary = held.summary) (hopen : other.openRuns = held.openRuns)
    (hfinished : other.finishedRuns = held.finishedRuns)
    (hattempts : ∀ n, other.attemptsOf n = held.attemptsOf n) :
    Undisturbed maxNodes held other := by
  refine ⟨hmanaged, by rw [hsummary], hopen, hfinished, hattempts, fun _ => by rw [hsummary], ?_, ?_,
    ?_⟩
  · rw [hnodes]
    exact .insert hold fun hnone => (hnew hnone).1
  · intro k hk hmem
    rw [hnodes, ExtTreeMap.mem_insert, Std.LawfulEqCmp.compare_eq_iff_eq] at hmem
    rcases hmem with rfl | hmem
    · exact (hnew (ExtTreeMap.getElem?_eq_none hk)).2
    · exact absurd hmem hk
  · rw [hnodes, ExtTreeMap.size_insert]
    split <;> omega

theorem adoptNodes (maxNodes : Nat) (nodes : List WorkflowNode) (held : Held) :
    Undisturbed maxNodes held (Held.adoptNodes maxNodes nodes held) := by
  induction nodes generalizing held with
  | nil => exact .rfl' held
  | cons node rest ih =>
    unfold Held.adoptNodes
    split
    · rename_i existing hexisting
      have hpromoted : Undisturbed maxNodes held
          { held with nodes := held.nodes.insert node.id (existing.promoted node) } := by
        refine insert ?_ ?_ rfl rfl rfl rfl rfl fun _ => rfl
        · intro old hold
          cases Option.some.inj (hexisting.symm.trans hold)
          rfl
        · intro hnone
          rw [hexisting] at hnone
          cases hnone
      exact hpromoted.trans (ih _)
    · rename_i hnone
      split
      · exact .rfl' held
      · rename_i hroom
        have hmade : Undisturbed maxNodes held { held with
            nodeOrder := held.nodeOrder ++ [node.id]
            nodes := held.nodes.insert node.id (.declaredFrom node) } := by
          refine insert ?_ ?_ rfl rfl rfl rfl rfl fun _ => rfl
          · intro old hold
            rw [hnone] at hold
            cases hold
          · exact fun _ => ⟨rfl, Nat.lt_of_not_le hroom⟩
        exact hmade.trans (ih _)

theorem adopt (maxNodes : Nat) (held : Held) (definition : WorkflowDefinition) :
    Undisturbed maxNodes held (held.adopt definition maxNodes) := by
  have hadopted := adoptNodes maxNodes definition.nodes
    { held with
      summary := { held.summary with version := definition.version }
      edges := definition.edges }
  exact ⟨hadopted.managed, hadopted.started, hadopted.openRuns, hadopted.finishedRuns,
    hadopted.attempts, hadopted.error, hadopted.nodes, hadopted.grows, hadopted.size⟩

theorem cleared (held : Held) : Undisturbed maxNodes held { held with
    nodes := held.nodes.map fun _ node => { node with artifacts := [] } } := by
  refine ⟨rfl, rfl, rfl, rfl, fun _ => rfl, fun _ => rfl, ⟨?_, ?_⟩, ?_, ?_⟩
  · intro n node hnode
    exact ⟨{ node with artifacts := [] }, by rw [ExtTreeMap.getElem?_map, hnode]; rfl, rfl⟩
  · intro n now hnow
    rw [ExtTreeMap.getElem?_map] at hnow
    obtain ⟨node, hnode, rfl⟩ := Option.map_eq_some_iff.mp hnow
    exact .inl ⟨node, hnode, rfl⟩
  · intro n hnew hn
    exact absurd (by simpa using hn) hnew
  · simp

end Undisturbed

end Aiwatcher.Workflows
