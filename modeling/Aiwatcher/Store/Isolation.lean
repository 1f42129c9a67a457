import Aiwatcher.Store.Alike
import Aiwatcher.Store.Deliveries

/-!
# Aiwatcher.Store.Isolation

Scopes are isolated: an owner is written with the append that begins an execution and
stays until the execution is forgotten, an operation through a handle on another side is
refused, and everything else a project's handle is told is what it would be told if
nobody else had ever used the store (`scopes_are_isolated`).
-/

namespace Aiwatcher.Store

open Engine Library

theorem unwinds_ours (size : WorkflowMessage → Nat) (project : ProjectScope) :
    (handles size).Unwinds (ours size project) Inner.Promised
      (fun s u => s.Tidy ∧ s.Alike project u) where
  own := by
    intro s u act out s' h hpromised hours hstep
    obtain ⟨binding, op⟩ := act
    cases hstep
    have hbinding : binding = project.handle := by
      simp only [ours, Bool.and_eq_true, beq_iff_eq] at hours
      exact hours.1
    subst hbinding
    obtain ⟨hreply, halike⟩ := h.2.ours h.1 hpromised hours
    refine ⟨_, ?_, h.1.perform hpromised size, halike⟩
    simp only [handles, hreply]
    rfl
  other := by
    intro s u act out s' h hpromised hours hstep
    obtain ⟨binding, op⟩ := act
    cases hstep
    exact ⟨h.1.perform hpromised size, h.2.theirs h.1 hpromised hours⟩

/-! ## Refusals -/

/-- The error an answer is, if it is one. -/
def errorOf {α : Type} : Except StoreError α → Option StoreError
  | .ok _ => none
  | .error error => some error

/-- The error an operation that names an execution is answered with. -/
def Operation.error? : (op : Operation) → op.Reply → Option StoreError
  | .ownership _, reply => errorOf reply
  | .load _, reply => errorOf reply
  | .loadPage .., reply => errorOf reply
  | .timersOf _, reply => errorOf reply
  | .recordedOutcome _, reply => errorOf reply
  | .takeDeciderLease .., reply => errorOf reply
  | .releaseDeciderLease .., reply => errorOf reply
  | .deciderLease _, reply => errorOf reply
  | .append .., reply => errorOf reply
  | .projection _, reply => errorOf reply
  | .heartbeat .., reply => errorOf reply
  | .attempt _, reply => errorOf reply
  | _, _ => none

theorem errorOf_of_eq {α β : Type} {answer : Except StoreError α × β} {error : StoreError}
    {store : β} (h : answer = (.error error, store)) : errorOf answer.1 = some error := by
  rw [h]
  rfl

/-- An operation was refused, and changed nothing a handle can see. -/
structure Refused (size : WorkflowMessage → Nat) (s : Inner) (act : ScopeBinding × Operation)
    (e : String) : Prop where
  reply : act.2.error? (act.2.perform size s act.1).1 = some (act.1.refusal e (s.ownerOf e)) ∨
    ∃ bytes limit, act.2.error? (act.2.perform size s act.1).1 =
      some (.payloadTooLarge bytes limit)
  kept : (act.2.perform size s act.1).2 = s ∨ (act.2.perform size s act.1).2 = s.reach e

namespace Inner

variable {s : Inner} {binding : ScopeBinding} {size : WorkflowMessage → Nat} {e : String}

section

variable (hside : s.admits binding e = false)

include hside

theorem about_refused {α : Type} (answer : α) :
    errorOf (s.about binding e answer) = some (binding.refusal e (s.ownerOf e)) := by
  rw [Inner.about, check_eq_error hside]
  rfl

theorem appending_refused (establishing : Option ExecutionOwnership) :
    binding.appending e establishing (s.ownerOf e) ((s.stream e).length == 0) =
      .error (binding.refusal e (s.ownerOf e)) := by
  have hcheck := check_eq_error hside
  rw [Inner.check, holds_eq] at hcheck
  simp only [ScopeBinding.appending, hcheck]

theorem refused_append (request : AppendRequest) (now : OffsetDateTime) :
    Refused size s (binding, .append e request now) e := by
  cases hsize : request.checkPayloads size with
  | error error =>
    have hmoved : s.append binding size e request now = (.error error, s) := by
      simp only [Inner.append, hsize]
    have hlarge : ∃ bytes limit, error = .payloadTooLarge bytes limit := by
      unfold AppendRequest.checkPayloads at hsize
      split at hsize
      · cases hsize
        exact ⟨_, _, rfl⟩
      · cases hsize
    obtain ⟨bytes, limit, rfl⟩ := hlarge
    exact ⟨.inr ⟨bytes, limit, errorOf_of_eq hmoved⟩, .inl (congrArg Prod.snd hmoved)⟩
  | ok _ =>
    have hmoved : s.append binding size e request now =
        (.error (binding.refusal e (s.ownerOf e)), s.reach e) := by
      simp only [Inner.append, hsize, appending_refused hside]
    exact ⟨.inl (errorOf_of_eq hmoved), .inr (congrArg Prod.snd hmoved)⟩

end

theorem refused_perform {op : Operation} (hnames : op.names = some e)
    (hside : s.admits binding e = false) : Refused size s (binding, op) e := by
  cases op with
  | append e' request now =>
    cases hnames
    exact refused_append hside request now
  | takeDeciderLease e' holder now =>
    cases hnames
    have hmoved : s.takeDeciderLease binding e holder now =
        (.error (binding.refusal e (s.ownerOf e)), s) := by
      simp only [Inner.takeDeciderLease, check_eq_error hside]
    exact ⟨.inl (errorOf_of_eq hmoved), .inl (congrArg Prod.snd hmoved)⟩
  | releaseDeciderLease e' holder now =>
    cases hnames
    have hmoved : s.releaseDeciderLease binding e holder now =
        (.error (binding.refusal e (s.ownerOf e)), s) := by
      simp only [Inner.releaseDeciderLease, check_eq_error hside]
    exact ⟨.inl (errorOf_of_eq hmoved), .inl (congrArg Prod.snd hmoved)⟩
  | heartbeat key owner now =>
    cases hnames
    have hmoved : s.heartbeat binding key owner now =
        (.error (binding.refusal key.executionId (s.ownerOf key.executionId)), s) := by
      simp only [Inner.heartbeat, check_eq_error hside]
    exact ⟨.inl (errorOf_of_eq hmoved), .inl (congrArg Prod.snd hmoved)⟩
  | ownership | load | loadPage | timersOf | deciderLease | projection | recordedOutcome
  | attempt =>
    cases hnames
    exact ⟨.inl (about_refused hside _), .inl rfl⟩
  | _ => cases hnames

end Inner

/-! ## Owners -/

/-- What one operation does to the owner of an execution. -/
inductive Owning (before after : Inner) (act : ScopeBinding × Operation) (e : String) : Prop where
  | kept (h : after.ownerOf e = before.ownerOf e)
  | established {owner : ExecutionOwnership} {request : AppendRequest} {now : OffsetDateTime}
      (hact : act = (owner.scope.handle, .append e request now))
      (howner : request.ownership = some owner) (hnone : before.ownerOf e = none)
      (hfirst : before.stream e = []) (hwritten : after.ownerOf e = some owner)
      (hbegun : after.stream e ≠ [])
  | forgotten {cutoff : OffsetDateTime} {limit : Nat} {visits : List String}
      (hact : act.2 = .prune cutoff limit visits) (hnone : after.ownerOf e = none)
      (hgone : after.stream e = [])

namespace Inner

variable {s : Inner} {binding : ScopeBinding} {size : WorkflowMessage → Nat}

theorem owning_append (execution : String) (request : AppendRequest) (now : OffsetDateTime)
    (e : String) : Owning s (s.append binding size execution request now).2
      (binding, .append execution request now) e := by
  have happend := appending_append size s binding execution request now
  generalize (s.append binding size execution request now).1 = reply,
    (s.append binding size execution request now).2 = after at happend ⊢
  cases happend with
  | @written establishing _ hscope _ _ =>
    by_cases he : execution = e
    · subst he
      obtain ⟨-, rfl | ⟨owner, rfl, howner, hnone, hempty, hbound⟩⟩ :=
        ScopeBinding.appending_cases hscope
      · exact .kept (by rw [ownerOf_commit, Option.none_or])
      · have hbinding : binding = owner.scope.handle := by
          cases binding with
          | mk scope => simp_all [ProjectScope.handle]
        subst hbinding
        exact .established rfl howner hnone (by simpa using hempty)
          (by rw [ownerOf_commit, Option.some_or]) (holds_iff _ |>.mp (holds_commit ..))
    · exact .kept ((getElem?_ownership_commit ..).trans (if_neg he))
  | _ => exact .kept rfl

/-- **One operation** writes an owner with the append that begins an execution, and drops it
with the execution. -/
theorem owning_perform (op : Operation) (e : String) :
    Owning s (op.perform size s binding).2 (binding, op) e := by
  have hwrote := wrote_perform size binding s op
  generalize (op.perform size s binding).2 = after at hwrote ⊢
  cases hwrote with
  | append => exact owning_append _ _ _ e
  | @prune cutoff limit visits =>
    by_cases hdoomed : e ∈ s.doomed binding cutoff limit visits
    · refine .forgotten rfl ?_ ?_
      · exact (Table.getElem?_dropAll ..).trans (if_pos hdoomed)
      · show ((Table.dropAll s.streams _)[e]?).getD [] = []
        rw [Table.getElem?_dropAll, if_pos hdoomed]
        rfl
    · exact .kept (prune_frame hdoomed).ownership
  | _ => exact .kept rfl

end Inner

/-! ## Isolation -/

/-- **Scopes are isolated.**  In every run of operations through any handles, an execution's
owner is written once, by the append that begins its stream, and is there until the execution
is forgotten; an operation through a handle on another side of an execution is refused and
changes nothing.  And where callers keep their promises, what the handle of one project is told
is what it would be told if nobody else had used the store: answers about executions of
others, and of those it begins outside its own scope, apart. -/
theorem scopes_are_isolated (size : WorkflowMessage → Nat) (project : ProjectScope)
    (acts : List (ScopeBinding × Operation)) :
    (∀ st ∈ (handles size).run .new acts, ∀ e, Owning st.before st.after st.input e) ∧
      (∀ st ∈ (handles size).run .new acts, ∀ e, st.input.2.names = some e →
        st.before.admits st.input.1 e = false → Refused size st.before st.input e) ∧
      ((∀ st ∈ (handles size).run .new acts, st.before.Promised st.input) →
        (handles size).told (ours size project) .new acts =
          (handles size).emitted .new ((handles size).purge (ours size project) .new acts)) := by
  refine ⟨fun st hst e => ?_, fun st _ e hnames hside => Inner.refused_perform hnames hside,
    fun hpromised => ?_⟩
  · have hstep := Machine.step_of_mem_run hst
    simp only [handles, Option.some.injEq, Prod.mk.injEq] at hstep
    rw [← hstep.2]
    exact Inner.owning_perform st.input.2 e
  · have halike : Inner.new.Alike project .new := {
      tidy := Inner.tidy_new
      here := fun e _ => .refl e .new
      elsewhere := fun e hside => Inner.tidy_new.blank e (by simp [Inner.holds, Inner.stream, Inner.new])
      outbox := rfl }
    exact Machine.emitted_purge (unwinds_ours size project) ⟨Inner.tidy_new, halike⟩ hpromised

/-! ## Two projects -/

/-- One of two projects of an organization. -/
def projectOf (name : String) : ProjectScope := ⟨"organization", name⟩

/-- The append that begins a project's execution, with an outbox row under that id. -/
def beginning (project : ProjectScope) (execution : String) (rows : List String) :
    ScopeBinding × Operation :=
  (project.handle, .append execution {
    expectedVersion := .noStream
    input := ⟨.input, startOf (planOf [workerStep "work"] []), messageOf "start"⟩
    outputs := []
    projection := projectionOf execution .empty 1
    outbox := rows.map fun id => ⟨id, "fact", partitionOf execution, .null, 0, 0, none, none⟩
    checkpoint := none
    timers := []
    attempts := []
    ownership := some ⟨project, ⟨"provider", "somebody"⟩, ⟨.workflow, "plan", "1", "plan"⟩⟩ } 0)

theorem promised_beginning (s : Inner) (project : ProjectScope) (execution : String) :
    s.Promised (beginning project execution []) :=
  ⟨⟨by simp, by simp, by simp, executionId_projectionOf ..⟩, by simp, by simp⟩

/-- Both projects work on the store, and the second one looks at the first one's run. -/
def sideBySide : List (ScopeBinding × Operation) :=
  [beginning (projectOf "first") "run" [], ((projectOf "second").handle, .load "run"),
    beginning (projectOf "second") "mine" [],
    ((projectOf "first").handle, .claimAttempt ⟨none, [.pythonTask], [], []⟩ "worker" 1),
    ((projectOf "second").handle, .load "mine"), ((projectOf "second").handle, .dueTimers 0 10)]

theorem sideBySide_are_isolated :
    ((handles fun _ => 0).told (ours (fun _ => 0) (projectOf "second")) .new sideBySide).length = 3 ∧
      (handles fun _ => 0).told (ours (fun _ => 0) (projectOf "second")) .new sideBySide =
        (handles fun _ => 0).emitted .new
          ((handles fun _ => 0).purge (ours (fun _ => 0) (projectOf "second")) .new sideBySide) := by
  have hpromised : ∀ act ∈ sideBySide, ∀ s : Inner, s.Promised act := by
    simp only [sideBySide, List.forall_mem_cons]
    exact ⟨fun s => promised_beginning .., fun _ => trivial, fun s => promised_beginning ..,
      fun _ => trivial, fun _ => trivial, fun _ => trivial, by simp⟩
  exact ⟨by decide +kernel, (scopes_are_isolated (fun _ => 0) (projectOf "second") sideBySide).2.2
    fun st hst => hpromised _ (Machine.input_mem_of_mem_run hst) _⟩

/-- **Not as if the others did not exist.**  A project that loads another one's execution is
refused, where it would find nothing; a lease taken of an execution nobody has begun is
everybody's; and of two rows under one message id the publisher of one drops both. -/
theorem others_are_noticed :
    errorOf (Inner.load (performAll (fun _ => 0) .new [beginning (projectOf "first") "run" []])
        (projectOf "second").handle "run") ≠ none ∧
      errorOf (Inner.load .new (projectOf "second").handle "run") = none ∧
      ((Inner.deciderLease (performAll (fun _ => 0) .new [((projectOf "first").handle,
        .takeDeciderLease "run" "somebody" 0)]) (projectOf "second").handle "run").toOption.bind
          fun lease => lease) ≠ none ∧
      (Inner.pendingOutbox (performAll (fun _ => 0) .new [beginning (projectOf "first") "run" ["id"],
        beginning (projectOf "second") "mine" ["id"],
        ((projectOf "first").handle, .markPublished ["id"])]) (projectOf "second").handle
          10).length = 0 := by
  decide +kernel

end Aiwatcher.Store
