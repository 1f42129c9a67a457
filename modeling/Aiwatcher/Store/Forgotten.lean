import Aiwatcher.Store.Deliveries
import Aiwatcher.Store.Pruning

/-!
# Aiwatcher.Store.Forgotten

What a retention sweep of the file store leaves, and `prune_leaves_nothing_when` for
both stores.

A commit left in the journal is written again by the next `recover`, so here a commit of
a forgotten run brings it back.
-/

namespace Aiwatcher.Store

open Engine Library List Std

/-- The rows a commit writes are of its own execution. -/
structure PendingCommit.Own (commit : PendingCommit) : Prop where
  timers : ∀ timer, .schedule timer ∈ commit.timers → timer.execution = commit.execution
  attempts : ∀ write ∈ commit.attempts, write.write.key.executionId = commit.execution
  outbox : ∀ row ∈ commit.outbox, row.partitionKey = partitionOf commit.execution

namespace Disk

variable {β : Type} [StreamFile β] {disk : Disk β} {execution : String} {binding : ScopeBinding}

/-! ## A directory that holds nothing of an execution -/

structure Nothing (disk : Disk β) (execution : String) : Prop where
  stream : disk.streams[execution]? = none
  projection : disk.projections[execution]? = none
  ownership : disk.ownership[execution]? = none
  lease : disk.deciderLeases[execution]? = none
  timers : NoTimer disk.timers execution
  attempts : NoAttempt disk.attempts execution
  outbox : NoOutbox disk.outbox execution
  commits : ∀ (at' : Nat) (commit : PendingCommit), disk.commits[at']? = some commit →
    commit.execution ≠ execution ∧ commit.Own

section

variable (h : disk.Nothing execution)

include h

theorem Nothing.about {α : Type} (answer : α) :
    disk.about binding execution answer = .ok answer := by
  have hadmits : binding.admits none false = true := by
    cases binding with
    | mk scope => cases scope <;> rfl
  simp [Disk.about, check, ownerOf, holds, h.stream, h.ownership, ScopeBinding.check, hadmits,
    Except.map]

theorem Nothing.readStream : disk.readStream execution = [] := by
  simp [Disk.readStream, readStreamValid, h.stream]

theorem Nothing.gone : Gone disk execution where
  load binding := by
    show disk.about binding execution _ = _
    rw [h.about, h.readStream]
    rfl
  loadPage binding after limit := by
    show disk.about binding execution _ = _
    rw [h.about, h.readStream]
    simp [StreamSlice.page]
  projection binding := by
    show disk.about binding execution _ = _
    rw [h.about, h.projection]
  ownership binding := by
    show disk.about binding execution _ = _
    rw [h.about, ownerOf, h.ownership]
  deciderLease binding := by
    show disk.about binding execution _ = _
    rw [h.about, h.lease]
  timersOf binding := by
    show disk.about binding execution _ = _
    rw [h.about, noTimer_iff.mpr h.timers]
  dueTimers binding now limit timer hdue := h.timers.due hdue
  attempt binding key hkey := by
    show disk.about binding key.executionId _ = _
    rw [hkey, h.about, h.attempts.getElem? hkey]
  recordedOutcome binding key hkey := by
    show disk.about binding key.executionId _ = _
    rw [hkey, h.about, h.readStream]
    rfl
  claimAttempt binding filter owner now row hrow := by
    simp only [WorkflowStore.claimAttempt, Disk.claimAttempt] at hrow
    split at hrow
    · cases hrow
    · split at hrow
      · cases hrow
      · rename_i held hheld
        cases hrow
        exact (h.attempts _ held hheld).2
  claimableAttempts binding runtime now limit row hrow := h.attempts.claimable hrow
  pendingOutbox binding limit row hrow := h.outbox.pending hrow

end

/-! ## What a commit of another execution leaves -/

variable {commit : PendingCommit} {other : String} {request : AppendRequest}

theorem nothing_stage (hother : commit.execution ≠ execution) (hown : commit.Own)
    (now : OffsetDateTime) :
    ∀ stage ∈ stages commit now, ∀ disk : Disk β, disk.Nothing execution →
      (stage disk).Nothing execution := by
  rw [forall_stages]
  refine ⟨fun disk h => ?_, fun disk h => ?_, fun disk h => ?_, fun disk h => ?_,
    fun disk h => ?_, fun disk h => ?_, fun disk h => ?_⟩
  · cases howner : commit.ownership with
    | none => simpa [applyOwnership, howner] using h
    | some owner =>
      exact { h with ownership := by simp [applyOwnership, howner, Table.getElem?_insert, hother,
                       h.ownership] }
  · show (disk.applyStream commit now).Nothing execution
    unfold applyStream
    split
    · exact h
    · exact { h with stream := by simp [Table.getElem?_insert, hother, h.stream] }
  · exact { h with projection := by simp [applyProjection, Table.getElem?_insert, hother,
                     h.projection] }
  · exact { h with outbox := h.outbox.append
                     (fun row hrow => hown.outbox row (mem_of_mem_filter hrow)) hother }
  · exact { h with timers := h.timers.append hown.timers hother }
  · exact { h with attempts := h.attempts.append hown.attempts hother }
  · exact { h with }

omit [StreamFile β] in
theorem Nothing.withCommits (h : disk.Nothing execution) {commits : BTreeMap Nat PendingCommit}
    (hcommits : ∀ (at' : Nat) (commit : PendingCommit), commits[at']? = some commit →
      commit.execution ≠ execution ∧ commit.Own) :
    { disk with commits := commits }.Nothing execution :=
  { h with commits := hcommits }

omit [StreamFile β] in
theorem Nothing.erase (h : disk.Nothing execution) (at' : Nat) :
    { disk with commits := disk.commits.erase at' }.Nothing execution :=
  h.withCommits fun n commit hcommit => h.commits n commit (Table.of_erase hcommit).2

theorem Nothing.recover (h : disk.Nothing execution) (now : OffsetDateTime) :
    (disk.recover now).Nothing execution := by
  refine recover_keeps (P := fun disk : Disk β => disk.Nothing execution) (fun pending hpending => ?_) h
  have hcommit : disk.commits[pending.1]? = some pending.2 :=
    ExtTreeMap.mem_toList_iff_getElem?_eq_some.mp hpending
  obtain ⟨hother, hown⟩ := h.commits _ _ hcommit
  exact fun disk h => (apply_keeps (nothing_stage hother hown now) h).erase pending.1

theorem own_of_accept {now : OffsetDateTime}
    (haccept : disk.accept binding other request now = .inr commit) (hown : request.Own other) :
    commit.execution = other ∧ commit.Own := by
  unfold accept at haccept
  dsimp only at haccept
  split at haccept
  · cases haccept
  · split at haccept
    · cases haccept
    · split at haccept
      · cases haccept
      · cases haccept
        exact ⟨rfl, hown.timers, hown.attempts, hown.outbox⟩

omit [StreamFile β] in
theorem Nothing.journal (h : disk.Nothing execution) (hother : commit.execution ≠ execution)
    (hown : commit.Own) (now : OffsetDateTime) : (disk.journal commit now).Nothing execution :=
  h.withCommits (Table.forall_insert ⟨hother, hown⟩ h.commits)

section

variable (h : disk.Nothing execution)

include h

theorem Nothing.appendStopped (size : WorkflowMessage → Nat) (hother : other ≠ execution)
    (hown : request.Own other) (now : OffsetDateTime) (reached : Nat) :
    (disk.appendStopped size binding other request now reached).Nothing execution := by
  unfold Disk.appendStopped
  split
  · exact h
  · dsimp only
    split
    · exact h.recover now
    · rename_i commit haccept
      obtain ⟨rfl, hcommit⟩ := own_of_accept haccept hown
      exact applyUpTo_keeps (nothing_stage hother hcommit now)
        ((h.recover now).journal hother hcommit now) reached

theorem Nothing.append (size : WorkflowMessage → Nat) (hother : other ≠ execution)
    (hown : request.Own other) (now : OffsetDateTime) :
    (disk.append binding size other request now).2.Nothing execution := by
  unfold Disk.append
  split
  · exact h
  · dsimp only
    split
    · exact h.recover now
    · rename_i commit haccept
      obtain ⟨rfl, hcommit⟩ := own_of_accept haccept hown
      exact (apply_keeps (nothing_stage hother hcommit now)
        ((h.recover now).journal hother hcommit now)).erase _

/-! ## What the other operations leave -/

theorem Nothing.prune (before : OffsetDateTime) (limit : Nat) (visits : List String) :
    (disk.prune binding before limit visits).2.Nothing execution where
  stream := by
    simp only [Disk.prune, forget, Table.getElem?_dropAll, h.stream, ite_self]
  projection := by
    simp only [Disk.prune, forget, Table.getElem?_dropAll, h.projection, ite_self]
  ownership := by
    simp only [Disk.prune, forget, Table.getElem?_dropAll, h.ownership, ite_self]
  lease := h.lease
  timers := h.timers
  attempts := h.attempts.filter _
  outbox := h.outbox
  commits := h.commits

end

/-- **An operation that spares an execution** leaves nothing of it where there was nothing. -/
theorem Nothing.perform (h : disk.Nothing execution) {size : WorkflowMessage → Nat}
    {op : Operation} (hspares : op.Spares execution) :
    (op.perform size disk binding).2.Nothing execution := by
  have hwrote := wrote_perform size binding disk op
  generalize (op.perform size disk binding).2 = after at hwrote ⊢
  cases hwrote with
  | nothing => exact h
  | append => exact h.append size hspares.1 hspares.2 _
  | prune => exact h.prune _ _ _
  | taken lease =>
    exact { h with lease := (Table.getElem?_insert ..).trans (by rw [if_neg hspares, h.lease]) }
  | released => exact { h with lease := by rw [Table.getElem?_erase, h.lease, ite_self] }
  | published keep => exact { h with outbox := h.outbox.filter keep }
  | slots slots => exact { h with }
  | attempt hrow hkey _ =>
    obtain ⟨hother, hrow⟩ := h.attempts _ _ hrow
    exact { h with attempts := h.attempts.insert hother (hkey ▸ hrow) }
  | checkpoints checkpoints => exact { h with }

theorem Nothing.reopen (h : disk.Nothing execution) (now : OffsetDateTime) :
    (disk.reopen now).Nothing execution :=
  { h.recover now with attempts := (h.recover now).attempts.filter _ }

/-! ## The state a sweep is made in -/

/-- What happens to a directory: an operation or a tick, an append that stops between two
files, or being opened again. -/
inductive Happening where
  | later (l : Later)
  | stopped (binding : ScopeBinding) (other : String) (request : AppendRequest)
      (now : OffsetDateTime) (reached : Nat)
  | reopened (now : OffsetDateTime)

/-- A happening that brings nothing of an execution. -/
def Happening.Spares (execution : String) : Happening → Prop
  | .later l => l.Spares execution
  | .stopped _ other request .. => other ≠ execution ∧ request.Own other
  | .reopened _ => True

def happen (env : Deployment) (disk : Disk β) : Happening → Disk β
  | .later l => l.run env disk
  | .stopped binding other request now reached =>
    disk.appendStopped env.payloadSize binding other request now reached
  | .reopened now => disk.reopen now

/-- An append of rows of the execution it appends to, or anything else. -/
def Happening.Own : Happening → Prop
  | .later (.operation _ (.append other request _)) => request.Own other
  | .stopped _ other request .. => request.Own other
  | _ => True

/-- Attempt rows are under their own keys, and the journal's commits are each about their
own execution. -/
structure Sound (disk : Disk β) : Prop where
  keyed : Keyed disk.attempts
  own : ∀ (at' : Nat) (commit : PendingCommit), disk.commits[at']? = some commit → commit.Own

omit [StreamFile β] in
theorem sound_new : (new : Disk β).Sound where
  keyed key row hrow := by simp [new] at hrow
  own at' commit hcommit := by simp [new] at hcommit

omit [StreamFile β] in
theorem Sound.erase (h : disk.Sound) (at' : Nat) :
    { disk with commits := disk.commits.erase at' }.Sound :=
  ⟨h.keyed, fun n commit hcommit => h.own n commit (Table.of_erase hcommit).2⟩

theorem sound_stage (commit : PendingCommit) (now : OffsetDateTime) :
    ∀ stage ∈ stages commit now, ∀ disk : Disk β, disk.Sound → (stage disk).Sound := by
  rw [forall_stages]
  refine ⟨fun disk h => ⟨h.keyed, h.own⟩, fun disk h => ?_, fun disk h => ⟨h.keyed, h.own⟩,
    fun disk h => ⟨h.keyed, h.own⟩, fun disk h => ⟨h.keyed, h.own⟩,
    fun disk h => ⟨keyed_append h.keyed _, h.own⟩, fun disk h => ⟨h.keyed, h.own⟩⟩
  show (disk.applyStream commit now).Sound
  rw [applyStream_eq]
  exact ⟨h.keyed, h.own⟩

theorem Sound.recover (h : disk.Sound) (now : OffsetDateTime) : (disk.recover now).Sound :=
  recover_keeps (P := Sound)
    (fun pending _ _ h => (apply_keeps (sound_stage pending.2 now) h).erase pending.1) h

omit [StreamFile β] in
theorem Sound.journal (h : disk.Sound) (hown : commit.Own) (now : OffsetDateTime) :
    (disk.journal commit now).Sound :=
  ⟨h.keyed, Table.forall_insert hown h.own⟩

theorem Sound.append (h : disk.Sound) (size : WorkflowMessage → Nat) (hown : request.Own other)
    (now : OffsetDateTime) : (disk.append binding size other request now).2.Sound := by
  unfold Disk.append
  split
  · exact h
  · dsimp only
    split
    · exact h.recover now
    · rename_i commit haccept
      have hcommit := (own_of_accept haccept hown).2
      exact (apply_keeps (sound_stage commit now) ((h.recover now).journal hcommit now)).erase _

theorem Sound.appendStopped (h : disk.Sound) (size : WorkflowMessage → Nat)
    (hown : request.Own other) (now : OffsetDateTime) (reached : Nat) :
    (disk.appendStopped size binding other request now reached).Sound := by
  unfold Disk.appendStopped
  split
  · exact h
  · dsimp only
    split
    · exact h.recover now
    · rename_i commit haccept
      have hcommit := (own_of_accept haccept hown).2
      exact applyUpTo_keeps (sound_stage commit now) ((h.recover now).journal hcommit now) reached

theorem Sound.perform (h : disk.Sound) {size : WorkflowMessage → Nat} {op : Operation}
    (hown : (Happening.later (.operation binding op)).Own) :
    (op.perform size disk binding).2.Sound := by
  have hwrote := wrote_perform size binding disk op
  generalize (op.perform size disk binding).2 = after at hwrote ⊢
  cases hwrote with
  | nothing => exact h
  | append => exact h.append size hown _
  | prune => exact ⟨keyed_filter h.keyed _, h.own⟩
  | attempt hrow hkey _ => exact ⟨keyed_insert h.keyed (hkey.trans (h.keyed _ _ hrow)), h.own⟩
  | _ => exact ⟨h.keyed, h.own⟩

theorem Sound.happen (h : disk.Sound) {env : Deployment} {what : Happening} (hown : what.Own) :
    (disk.happen env what).Sound := by
  cases what with
  | later l =>
    cases l with
    | operation binding op => exact h.perform hown
    | tick binding now at' limit =>
      have hkept : Kept env (fun _ => True) (Sound : Disk β → Prop) := {
        append := fun store binding other request now _ hown h =>
          h.append env.payloadSize hown now
        advance := fun store binding processor cursor h => by
          show (Operation.perform env.payloadSize store binding
            (.advanceCheckpoint processor cursor)).2.Sound
          exact h.perform trivial }
      exact fireAll_keeps hkept binding now at' (fun _ _ => trivial) h
  | stopped binding other request now reached =>
    exact h.appendStopped env.payloadSize hown now reached
  | reopened now => exact ⟨keyed_filter (h.recover now).keyed _, (h.recover now).own⟩

theorem sound_run (env : Deployment) {history : List Happening} (hown : ∀ what ∈ history, what.Own) :
    (history.foldl (happen env) (new : Disk β)).Sound := by
  have hall : ∀ disk : Disk β, disk.Sound → (history.foldl (happen env) disk).Sound := by
    induction history with
    | nil => exact fun _ h => h
    | cons what history ih =>
      exact fun disk h => ih (fun w hw => hown w (mem_cons_of_mem _ hw)) _
        (h.happen (hown what mem_cons_self))
  exact hall new sound_new

/-! ## The sweep -/

/-- **What a sweep leaves** of an execution it forgets, beyond what it drops. -/
theorem nothing_prune (h : disk.Sound) {before : OffsetDateTime} {limit : Nat}
    {visits : List String}
    (hdoomed : execution ∈ (disk.doomed binding before limit visits).map (·.executionId))
    (htimers : NoTimer disk.timers execution) (hlease : disk.deciderLeases[execution]? = none)
    (hcommits : ∀ (at' : Nat) (commit : PendingCommit), disk.commits[at']? = some commit →
      commit.execution ≠ execution) :
    (disk.prune binding before limit visits).2.Nothing execution := by
  have hpublished : (unpublished disk.outbox).contains (partitionOf execution) = false := by
    obtain ⟨run, hrun, rfl⟩ := mem_map.mp hdoomed
    have hmay : disk.mayPrune binding before run = true :=
      (mem_filter.mp (mem_of_mem_take hrun)).2
    simp only [mayPrune, Bool.and_eq_true] at hmay
    simpa using hmay.1.1
  have hdrop : ∀ {γ : Type} (table : BTreeMap String γ), (Table.dropAll table
      ((disk.doomed binding before limit visits).map (·.executionId)))[execution]? = none :=
    fun table => by rw [Table.getElem?_dropAll, if_pos hdoomed]
  exact {
    stream := hdrop disk.streams
    projection := hdrop disk.projections
    ownership := hdrop disk.ownership
    lease := hlease
    timers := htimers
    attempts := noAttempt_filter h.keyed hdoomed
    outbox := noOutbox_of_unpublished hpublished
    commits := fun at' commit hcommit => ⟨hcommits at' commit hcommit, h.own at' commit hcommit⟩ }

theorem projections_recover {at' : Nat} (now : OffsetDateTime)
    (hcommit : disk.commits[at']? = some commit) :
    (disk.recover now).projections[commit.execution]? ≠ none := by
  have hstep : ∀ (disk : Disk β) (pending : Nat × PendingCommit),
      (disk.finish pending now).projections[commit.execution]? =
        if pending.2.execution = commit.execution then some pending.2.projection
        else disk.projections[commit.execution]? := by
    intro disk pending
    show (disk.apply pending.2 now).projections[commit.execution]? = _
    rw [projections_apply, Table.getElem?_insert]
  have hkept : ∀ (todo : List (Nat × PendingCommit)) (disk : Disk β),
      ((∃ pending ∈ todo, pending.2 = commit) ∨ disk.projections[commit.execution]? ≠ none) →
      (todo.foldl (fun disk pending => disk.finish pending now) disk).projections[
        commit.execution]? ≠ none := by
    intro todo
    induction todo with
    | nil => simp
    | cons pending todo ih =>
      intro disk h
      refine ih _ ?_
      rw [hstep]
      rcases h with ⟨p, hp, hpcommit⟩ | hheld
      · rcases mem_cons.mp hp with rfl | hp
        · simp [hpcommit]
        · exact .inl ⟨p, hp, hpcommit⟩
      · by_cases hsame : pending.2.execution = commit.execution <;> simp [hsame, hheld]
  have hpending : (at', commit) ∈ disk.pending :=
    ExtTreeMap.mem_toList_iff_getElem?_eq_some.mpr hcommit
  exact hkept disk.pending disk (.inl ⟨_, hpending, rfl⟩)

/-- **The file store**: an execution a sweep forgets stays gone exactly where the sweep finds
no timer and no decider lease of it, and no commit of it in the journal. -/
theorem gone_iff (env : Deployment) (h : disk.Sound) {before : OffsetDateTime} {limit : Nat}
    {visits : List String}
    (hdoomed : execution ∈ (disk.doomed binding before limit visits).map (·.executionId)) :
    (∀ later : List Happening, (∀ what ∈ later, what.Spares execution) →
      Gone (later.foldl (happen env) (disk.prune binding before limit visits).2) execution) ↔
    NoTimer disk.timers execution ∧ disk.deciderLeases[execution]? = none ∧
      ∀ (at' : Nat) (commit : PendingCommit), disk.commits[at']? = some commit →
        commit.execution ≠ execution := by
  constructor
  · intro hgone
    have hanswer : ∀ {α : Type} {store : Disk β} {found left : α},
        store.about .global execution found = .ok left → found = left := by
      intro α store found left habout
      unfold Disk.about at habout
      cases hcheck : store.check .global execution with
      | error refused => simp [hcheck, Except.map] at habout
      | ok u => simpa [hcheck, Except.map] using habout
    have hnow := hgone [] (by simp)
    refine ⟨noTimer_iff.mp (hanswer (hnow.timersOf .global)), hanswer (hnow.deciderLease .global),
      fun at' commit hcommit heq => ?_⟩
    have hreopened := hgone [.reopened before] (by simp [Happening.Spares])
    have hnone := hanswer (hreopened.projection .global)
    have hcommit : (disk.prune binding before limit visits).2.commits[at']? = some commit := hcommit
    have hback := projections_recover before hcommit
    rw [heq] at hback
    exact hback hnone
  · intro ⟨htimers, hlease, hcommits⟩ later hspares
    have hnothing := nothing_prune h hdoomed htimers hlease hcommits
    generalize (disk.prune binding before limit visits).2 = store at hnothing
    induction later generalizing store with
    | nil => exact hnothing.gone
    | cons what later ih =>
      refine ih (fun w hw => hspares w (mem_cons_of_mem _ hw)) _ ?_
      have hwhat := hspares what mem_cons_self
      cases what with
      | later l =>
        exact Later.run_keeps (P := fun store : Disk β => store.Nothing execution)
          (fun store binding op hop hnone => hnone.perform hop)
          (fun store binding now limit hnone => hnone.gone.dueTimers binding now limit)
          hnothing hwhat
      | stopped binding other request now reached =>
        exact hnothing.appendStopped env.payloadSize hwhat.1 hwhat.2 now reached
      | reopened now => exact hnothing.reopen now

end Disk

/-- **Prune leaves nothing behind** exactly where there is nothing it does not visit.  In the
memory store, in every state a store reaches, an execution a sweep forgets is found by no
later read, whatever else happens and however often ticks are repeated, if and only if the
sweep found no timer and no decider lease of it; in the file store, appends that stop and
reopenings included, if and only if there was no commit of it left in the journal either. -/
theorem prune_leaves_nothing_when (env : Deployment) (execution : String) (binding : ScopeBinding)
    (before : OffsetDateTime) (limit : Nat) (visits : List String) :
    (∀ (history : List Later) (inner : Inner), inner = history.foldl (Later.run env) .new →
      execution ∈ inner.doomed binding before limit visits →
      ((∀ later : List Later, (∀ l ∈ later, l.Spares execution) →
          Gone (later.foldl (Later.run env) (inner.prune binding before limit visits).2)
            execution) ↔
        NoTimer inner.timers execution ∧ inner.deciderLeases[execution]? = none)) ∧
    ∀ (β : Type) [StreamFile β] (history : List Disk.Happening) (disk : Disk β),
      disk = history.foldl (Disk.happen env) .new → (∀ what ∈ history, what.Own) →
      execution ∈ (disk.doomed binding before limit visits).map (·.executionId) →
      ((∀ later : List Disk.Happening, (∀ what ∈ later, what.Spares execution) →
          Gone (later.foldl (Disk.happen env) (disk.prune binding before limit visits).2)
            execution) ↔
        NoTimer disk.timers execution ∧ disk.deciderLeases[execution]? = none ∧
          ∀ (at' : Nat) (commit : PendingCommit), disk.commits[at']? = some commit →
            commit.execution ≠ execution) := by
  constructor
  · intro history inner hreached hdoomed
    have hkeyed : Keyed inner.attempts := hreached ▸ Inner.keyed_run env history
    exact Inner.gone_iff env hkeyed hdoomed
  · intro β _ history disk hreached hown hdoomed
    have hsound : disk.Sound := hreached ▸ Disk.sound_run env hown
    exact Disk.gone_iff env hsound hdoomed

/-! ## A hosted run, forgotten -/

/-- The start of a run a worker decides. -/
def hostedStart : WorkflowMessage :=
  .command (.startExecution "run" (planOf [workerStep "work"] []) .localDecider .hosted .external
    "somebody" ∅)

/-- What the handler appends for one input behind some messages. -/
def appendBehind (messages : List RecordedMessage) (input : WorkflowMessage) (id : String) :
    AppendRequest :=
  let slice := StreamSlice.whole messages
  (handlingOf input id).request plainDeployment "run" slice
    ((decide plainDigests (replay slice.events) input id 0).toOption.getD [])

/-- The run starts and is cancelled. -/
def cancelledRun : List Later :=
  let start := appendBehind [] hostedStart "start"
  [.operation .global (.append "run" start 0),
    .operation .global (.append "run" (appendBehind (numbered 0 0 start.messages)
      (.command (.cancelExecution "over")) "cancel") 2)]

theorem cancelledRun_leaves_nothing :
    (cancelledRun.foldl (Later.run plainDeployment) Inner.new).doomed .global 100 10 ["run"] =
        ["run"] ∧
      (∀ later : List Later, (∀ l ∈ later, l.Spares "run") →
        Gone (later.foldl (Later.run plainDeployment) ((cancelledRun.foldl
          (Later.run plainDeployment) Inner.new).prune .global 100 10 ["run"]).2) "run") ∧
      ∀ later : List Disk.Happening, (∀ what ∈ later, what.Spares "run") →
        Gone (later.foldl (Disk.happen plainDeployment) (((cancelledRun.map Disk.Happening.later).foldl
          (Disk.happen plainDeployment) (Disk.new : Disk (List RecordedMessage))).prune .global 100 10
            ["run"]).2) "run" := by
  have hown : ∀ what ∈ cancelledRun.map Disk.Happening.later, what.Own := by
    simp only [cancelledRun, List.map_cons, List.map_nil, List.forall_mem_cons]
    exact ⟨own_request .., own_request .., by simp⟩
  have hmemory := (prune_leaves_nothing_when plainDeployment "run" .global 100 10 ["run"]).1
    cancelledRun _ rfl (by decide +kernel)
  have hfiles := (prune_leaves_nothing_when plainDeployment "run" .global 100 10 ["run"]).2
    (List RecordedMessage) (cancelledRun.map Disk.Happening.later) _ rfl hown (by decide +kernel)
  refine ⟨by decide +kernel, hmemory.mpr ⟨?_, by decide +kernel⟩,
    hfiles.mpr ⟨?_, by decide +kernel, fun at' commit hcommit => ?_⟩⟩
  · exact noTimer_iff.mp (List.isEmpty_iff.mp (by decide +kernel))
  · exact noTimer_iff.mp (List.isEmpty_iff.mp (by decide +kernel))
  · have hnone : ((cancelledRun.map Disk.Happening.later).foldl (Disk.happen plainDeployment)
        (Disk.new : Disk (List RecordedMessage))).commits.isEmpty = true := by decide +kernel
    simp [Std.ExtTreeMap.isEmpty_iff.mp hnone] at hcommit

/-- A worker of that run asks for a reminder at 500, and the run is cancelled. -/
def reminded : Inner :=
  let started := (handle plainDeployment "run" (handlingOf hostedStart "start") 0 Inner.new).2
  let reminder : Timer := ⟨"run", "reminder", 500, ⟨"remind", .null, none⟩⟩
  let batch : HostedAppend := ⟨3, "batch", "worker", [⟨"note", .null, none⟩], [.schedule reminder]⟩
  let scheduled := (appendHosted plainDeployment .global "run" batch 1 1 started).2
  (handle plainDeployment "run" (handlingOf (.command (.cancelExecution "over")) "cancel") 2
    scheduled).2

/-- **The reminder outlives its run**: the sweep forgets the run, and the tick that finds the
reminder due begins its stream again. -/
theorem timer_of_a_pruned_run_fires :
    reminded.doomed .global 100 10 ["run"] = ["run"] ∧
      ((reminded.prune .global 100 10 ["run"]).2.stream "run").length = 0 ∧
      ((fireDueTimers plainDeployment .global 1000 1000 timersPerTick
        (reminded.prune .global 100 10 ["run"]).2).2.stream "run").length = 1 := by
  decide +kernel

end Aiwatcher.Store
