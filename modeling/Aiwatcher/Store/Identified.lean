import Aiwatcher.Store.Deliveries
import Aiwatcher.Store.Facts
import Aiwatcher.Store.Tidy

/-!
# Aiwatcher.Store.Identified

The facts of a run are identified once and for all: the rows published for its decisions have
ids of their own over the whole run, and whoever rebuilds the facts of a recorded decision
arrives at the same ids.

`lifetime` is everything that happens while a run is alive: the handler's calls about it, in
any order, and any other operation of the store between them.
-/

namespace Aiwatcher.Store

open Engine Library List Option

/-! ## The life of a run -/

/-- The append a call makes next, if it gets to one. -/
def Call.asks (env : Deployment) (execution : String) (handling : Handling) :
    Call → Option AppendRequest
  | .appending _ slice =>
    match decide env.digests (replay slice.events) handling.input handling.inputId
        handling.now with
    | .error _ => none
    | .ok outputs => some (handling.request env execution slice outputs)
  | _ => none

/-- Whether an append was accepted. -/
def granted : Except StoreError AppendOutcome → Bool
  | .ok (.appended _) => true
  | _ => false

/-- The append a step of the calls had accepted. -/
def Service.writes (env : Deployment) (execution : String) (s : Service Inner)
    (answers : List (Handling × Except StoreError AppendOutcome)) : Act → List AppendRequest
  | .arrive _ => []
  | .proceed call _ =>
    if answers.any fun answer => granted answer.2 then
      (s.calls[call]?.bind fun (handling, here) => here.asks env execution handling).toList
    else []

inductive Moment where
  /-- A call about the run comes in, or makes its next store operation. -/
  | call (act : Act)
  /-- Anything else that is done to the store. -/
  | meanwhile (binding : ScopeBinding) (op : Operation)

/-- What is done meanwhile: nothing else publishes for the run, and no sweep forgets it. -/
def meanwhileDone (execution : String) (store : Inner) (binding : ScopeBinding) :
    Operation → Bool
  | .append other request _ => other != execution || request.outbox.isEmpty
  | .prune before limit visits => !(store.doomed binding before limit visits).contains execution
  | _ => true

/-- The life of a run; what is emitted is every append of the handler that was accepted. -/
def lifetime (env : Deployment) (execution : String) :
    Machine (Service Inner) Moment AppendRequest where
  step s
    | .call act => ((service env execution).step s act).map fun (answers, s') =>
      (s.writes env execution answers act, s')
    | .meanwhile binding op =>
      if meanwhileDone execution s.store binding op then
        some ([], { s with store := (op.perform env.payloadSize s.store binding).2 })
      else none

/-! ## What a store keeps of a run -/

/-- Every input one store has recorded for a run and every message of its stream, another one
has too. -/
structure Inner.Keeps (execution : String) (s s' : Inner) : Prop where
  seen : ∀ id, (s.seenAt execution id).isSome = true → (s'.seenAt execution id).isSome = true
  stream : s.stream execution <+: s'.stream execution

namespace Inner.Keeps

variable {execution : String} {s s' : Inner}

theorem refl (s : Inner) : s.Keeps execution s := ⟨fun _ h => h, prefix_refl _⟩

theorem of_eq (hseen : s'.seen = s.seen) (hstreams : s'.streams = s.streams) :
    s.Keeps execution s' where
  seen id h := by rwa [seenAt, hseen]
  stream := by simp only [Inner.stream, hstreams, prefix_refl]

theorem of_same (h : SameAt execution s s') : s.Keeps execution s' where
  seen id hid := by rwa [h.seenAt]
  stream := by rw [h.stream]

theorem commit (s : Inner) (other : String) (establishing : Option ExecutionOwnership)
    (request : AppendRequest) (now : OffsetDateTime) :
    s.Keeps execution (s.commit other establishing request now) where
  seen id h := by
    rw [seenAt_commit]
    split
    · rfl
    · exact h
  stream := by
    rw [stream_commit]
    split
    · rename_i heq
      rw [heq]
      exact prefix_append ..
    · exact prefix_refl _

theorem append (s : Inner) (binding : ScopeBinding) (size : WorkflowMessage → Nat)
    (other : String) (request : AppendRequest) (now : OffsetDateTime) :
    s.Keeps execution (s.append binding size other request now).2 := by
  have happend := appending_append size s binding other request now
  generalize (s.append binding size other request now).1 = reply,
    (s.append binding size other request now).2 = after at happend ⊢
  cases happend with
  | tooLarge => exact refl s
  | written => exact commit ..
  | _ => exact of_same (same_reach ..)

theorem advanceCheckpoint (s : Inner) (binding : ScopeBinding) (processor : String)
    (checkpoint : Checkpoint) :
    s.Keeps execution (s.advanceCheckpoint binding processor checkpoint).2 := by
  unfold Inner.advanceCheckpoint
  split <;> exact of_eq rfl rfl

theorem perform {size : WorkflowMessage → Nat} {binding : ScopeBinding} {op : Operation}
    (h : meanwhileDone execution s binding op = true) :
    s.Keeps execution (op.perform size s binding).2 := by
  have hwrote := wrote_perform size binding s op
  generalize (op.perform size s binding).2 = after at hwrote ⊢
  cases hwrote with
  | append => exact append ..
  | @prune before limit visits =>
    have hspared : execution ∉ s.doomed binding before limit visits := by
      simpa [meanwhileDone] using h
    exact of_same (prune_frame hspared)
  | _ => exact of_eq rfl rfl

end Inner.Keeps

/-! ## What the handler appends -/

/-- An append the handler makes of a decision on a run that is active afterwards. -/
structure Decides (env : Deployment) (execution : String) (request : AppendRequest) (run : Execution) :
    Prop where
  input : request.input.direction = .input
  outbox : request.outbox =
    env.facts execution (.active run) request.outputs request.input.metadata

theorem exists_active_of_decide {d : Digests} {state : ExecutionState} {handling : Handling}
    {outputs : Decision}
    (h : decide d state handling.input handling.inputId handling.now = .ok outputs) :
    ∃ run, (outputs.filterMap (·.message.event?)).foldl evolve state = .active run := by
  have hstep : (machine d).step state handling.delivery =
      some (outputs, state.record (contents outputs)) := by
    simp only [machine, Handling.delivery, h]
  rw [← record_contents]
  rcases step_cases hstep with ⟨x, -, -, -, hafter⟩ | ⟨x, -, -, hafter⟩
  · exact ⟨_, hafter⟩
  · exact ⟨_, hafter⟩

variable {env : Deployment} {execution : String}

theorem decides_of_asks {handling : Handling} {here : Call} {request : AppendRequest}
    (h : here.asks env execution handling = some request) :
    ∃ run, Decides env execution request run := by
  cases here with
  | appending round slice =>
    simp only [Call.asks] at h
    split at h
    · cases h
    · rename_i outputs hdecide
      cases h
      obtain ⟨run, hactive⟩ := exists_active_of_decide hdecide
      refine ⟨run, rfl, ?_⟩
      simp only [Handling.request, hactive, Handling.pending]
  | _ => cases h

/-! ## The invariant -/

/-- The appends of the handler so far: each of a decision, their inputs recorded and never
twice, and each a stretch of the stream. -/
structure Written (env : Deployment) (execution : String) (requests : List AppendRequest)
    (s : Service Inner) : Prop where
  once : (requests.map (·.inputId)).Nodup
  seen : ∀ request ∈ requests, (s.store.seenAt execution request.inputId).isSome = true
  decided : ∀ request ∈ requests, ∃ run, Decides env execution request run
  recorded : ∀ request ∈ requests,
    request.messages <:+: (s.store.stream execution).map RecordedMessage.pending

section Steps

variable {env : Deployment} {execution : String} {requests : List AppendRequest}
  {s s' : Service Inner}

section

variable (h : Written env execution requests s)

include h

theorem Written.kept (hkeeps : s.store.Keeps execution s'.store) :
    Written env execution (requests ++ []) s' := by
  rw [append_nil]
  exact ⟨h.once, fun request hmem => hkeeps.seen _ (h.seen request hmem), h.decided,
    fun request hmem => (h.recorded request hmem).trans (hkeeps.stream.map _).isInfix⟩

/-- **An append that was accepted** was not there before and is from then on. -/
theorem Written.appended {request : AppendRequest} {run : Execution}
    (hdecides : Decides env execution request run) {establishing : Option ExecutionOwnership}
    {now : OffsetDateTime} (hnew : s.store.seenAt execution request.inputId = none)
    (hstore : s'.store = s.store.commit execution establishing request now) :
    Written env execution (requests ++ [request]) s' := by
  have hkeeps : s.store.Keeps execution s'.store := hstore ▸ Inner.Keeps.commit ..
  have hold := h.kept hkeeps
  rw [append_nil] at hold
  refine ⟨?_, fun r hr => ?_, fun r hr => ?_, fun r hr => ?_⟩
  · rw [map_append, nodup_append]
    refine ⟨h.once, by simp, fun id hid id' hid' heq => ?_⟩
    obtain ⟨r, hr, rfl⟩ := mem_map.mp hid
    have hsome := h.seen r hr
    rw [heq, mem_singleton.mp hid', hnew] at hsome
    cases hsome
  · rcases mem_append.mp hr with hr | hr
    · exact hold.seen r hr
    · rw [mem_singleton.mp hr, hstore, Inner.seenAt_commit, if_pos ⟨rfl, rfl⟩]
      rfl
  · rcases mem_append.mp hr with hr | hr
    · exact h.decided r hr
    · exact ⟨run, mem_singleton.mp hr ▸ hdecides⟩
  · rcases mem_append.mp hr with hr | hr
    · exact hold.recorded r hr
    · rw [mem_singleton.mp hr, hstore, Inner.stream_commit, if_pos rfl, map_append,
        pending_numbered]
      exact (suffix_append ..).isInfix

theorem Written.call {act : Act} {answers : List (Handling × Except StoreError AppendOutcome)}
    (hstep : (service env execution).step s act = some (answers, s')) :
    Written env execution (requests ++ s.writes env execution answers act) s' := by
  cases act with
  | arrive handling =>
    cases hstep
    exact h.kept (.refl _)
  | proceed i at' =>
    simp only [service, bind_eq_some_iff, map_eq_some_iff] at hstep
    obtain ⟨⟨handling, here⟩, hcall, ⟨there, store, reply⟩, hmove, hresult⟩ := hstep
    cases hresult
    simp only [Service.writes, hcall, bind_some]
    cases here with
    | loading round =>
      cases hmove
      exact h.kept (.refl _)
    | claiming slice version =>
      cases hmove
      exact h.kept (.refl _)
    | appending round slice =>
      simp only [Call.step] at hmove
      split at hmove
      · cases hmove
        exact h.kept (.refl _)
      · rename_i outputs hdecide
        cases hmove
        have hasks : (Call.appending round slice).asks env execution handling =
            some (handling.request env execution slice outputs) := by
          simp only [Call.asks, hdecide]
        obtain ⟨run, hdecides⟩ := decides_of_asks hasks
        have happend := appending_append env.payloadSize s.store handling.binding execution
          (handling.request env execution slice outputs) at'
        simp only [WorkflowStore.append, toList_some, map_cons, map_nil,
          any_cons, any_nil, Bool.or_false, hasks]
        generalize (s.store.append handling.binding env.payloadSize execution
            (handling.request env execution slice outputs) at').1 = reply,
          (s.store.append handling.binding env.payloadSize execution
            (handling.request env execution slice outputs) at').2 = after at happend ⊢
        cases happend with
        | written _ _ hnew => exact h.appended hdecides hnew rfl
        | tooLarge => exact h.kept (.refl _)
        | _ => exact h.kept (.of_same (Inner.same_reach ..))
    | advancing handled =>
      simp only [Call.step] at hmove
      split at hmove
      · cases hmove
      · cases hmove
        exact h.kept (.advanceCheckpoint ..)
    | done result => cases hmove

theorem Written.step {moment : Moment} {out : List AppendRequest}
    (hstep : (lifetime env execution).step s moment = some (out, s')) :
    Written env execution (requests ++ out) s' := by
  cases moment with
  | call act =>
    simp only [lifetime, map_eq_some_iff] at hstep
    obtain ⟨⟨answers, after⟩, hcall, hresult⟩ := hstep
    cases hresult
    exact h.call hcall
  | meanwhile binding op =>
    simp only [lifetime] at hstep
    split at hstep
    · rename_i hdone
      cases hstep
      exact h.kept (.perform hdone)
    · cases hstep

end

end Steps

/-! ## Names -/

/-- **A name says** which message it is of, which fact, and which envelope. -/
theorem rowName_inj {execution m m' : String} {place place' : Nat × Nat}
    (h : rowName execution m place = rowName execution m' place') : m = m' ∧ place = place' := by
  obtain ⟨hcause, hordinal⟩ := Text.append_repr_inj (c := '/') rfl rfl h
  have hname : causeOf m place.1 = causeOf m' place'.1 := String.append_right_inj _ |>.mp hcause
  obtain ⟨hm, hplace⟩ := Text.append_repr_inj (c := '#') rfl rfl hname
  exact ⟨hm, Prod.ext hplace hordinal⟩

theorem nodup_factPlaces (events : List WorkflowEvent) : (factPlaces events).Nodup := by
  refine Text.nodup_flatMap_of_group Prod.snd Prod.fst (fun entry hentry place hplace => ?_) ?_
    fun entry _ => ?_
  · obtain ⟨ordinal, -, rfl⟩ := mem_map.mp hplace
    rfl
  · rw [zipIdx_map_snd]
    exact nodup_range'
  · exact List.nodup_range.map fun i j hij => (Prod.mk.inj hij).2

theorem Decides.messageIds {serialise : Fact → Value} {request : AppendRequest} {run : Execution}
    (h : Decides (env.publishing serialise execution) execution request run) :
    request.outbox.map (·.messageId) =
      (factPlaces (request.outputs.filterMap (·.message.event?))).map fun place =>
        env.digests.deriveUuid (rowName execution request.inputId place) := by
  rw [h.outbox, facts_publishing, messageId_factsOf]
  rfl

/-! ## Identified once and for all -/

/-- The facts published for some appends of a run: their rows have ids of their own, and the
facts of each of its recorded decisions have the same ids whenever they are built again,
whatever the run has come to and whichever plan they are built by. -/
structure Identified (env : Deployment) (serialise : Fact → Value) (execution : String)
    (requests : List AppendRequest) (stream : List PendingMessage) : Prop where
  distinct : ((requests.flatMap (·.outbox)).map (·.messageId)).Nodup
  recorded : ∀ request ∈ requests, request.messages <:+: stream
  rebuilt : ∀ request ∈ requests, ∀ (run : Execution) (metadata : MessageMetadata),
    metadata.messageId = request.inputId →
      ((env.publishing serialise execution).facts execution (.active run) request.outputs
        metadata).map (·.messageId) = request.outbox.map (·.messageId)
  previewed : ∀ request ∈ requests, ∀ context : FactContext, context.execution = execution →
    context.cause = request.inputId →
      (factsOf env.digests serialise context
        (request.outputs.filterMap (·.message.event?))).map (·.messageId) =
          request.outbox.map (·.messageId)

theorem Written.identified {serialise : Fact → Value} {requests : List AppendRequest}
    {s : Service Inner} (h : Written (env.publishing serialise execution) execution requests s)
    (hinjective : Function.Injective env.digests.deriveUuid) :
    Identified env serialise execution requests
      ((s.store.stream execution).map RecordedMessage.pending) where
  distinct := by
    let labels : AppendRequest → List (String × Nat × Nat) := fun request =>
      (factPlaces (request.outputs.filterMap (·.message.event?))).map fun place =>
        (request.inputId, place)
    have hids : (requests.flatMap (·.outbox)).map (·.messageId) =
        (requests.flatMap labels).map fun label =>
          env.digests.deriveUuid (rowName execution label.1 label.2) := by
      rw [map_flatMap, map_flatMap]
      refine flatMap_congr fun request hrequest => ?_
      obtain ⟨run, hdecides⟩ := h.decided request hrequest
      rw [hdecides.messageIds, List.map_map]
      rfl
    have hlabels : (requests.flatMap labels).Nodup := by
      refine Text.nodup_flatMap_of_group (·.inputId) Prod.fst (fun request _ label hlabel => ?_)
        h.once fun request _ => ?_
      · obtain ⟨place, -, rfl⟩ := mem_map.mp hlabel
        rfl
      · exact (nodup_factPlaces _).map fun place place' heq => (Prod.mk.inj heq).2
    rw [hids]
    refine hlabels.map fun label label' heq => ?_
    obtain ⟨hmessage, hplace⟩ := rowName_inj (hinjective heq)
    exact Prod.ext hmessage hplace
  recorded := h.recorded
  rebuilt request hrequest run metadata hmetadata := by
    obtain ⟨after, hdecides⟩ := h.decided request hrequest
    rw [hdecides.messageIds, facts_publishing, messageId_factsOf, hmetadata]
  previewed request hrequest context hexecution hcause := by
    obtain ⟨after, hdecides⟩ := h.decided request hrequest
    rw [hdecides.messageIds, messageId_factsOf, hexecution, hcause]

/-- **Execution facts are identified once and for all.** Whatever calls there are on a run, in
whatever order they proceed, and whatever else is done to the store meanwhile: the rows
published for its decisions have pairwise different ids over the whole run, and building the
facts of a recorded decision again yields the ids its append carried. -/
theorem facts_identified (env : Deployment) (serialise : Fact → Value) (execution : String)
    (hinjective : Function.Injective env.digests.deriveUuid) (store : Inner)
    (moments : List Moment) :
    Identified env serialise execution
      ((lifetime (env.publishing serialise execution) execution).emitted ⟨store, []⟩ moments)
      ((((lifetime (env.publishing serialise execution) execution).last ⟨store, []⟩
        moments).store.stream execution).map RecordedMessage.pending) := by
  have hstart : Written (env.publishing serialise execution) execution [] ⟨store, []⟩ :=
    ⟨List.nodup_nil, by simp, by simp, by simp⟩
  have hlast : Written (env.publishing serialise execution) execution
      ([] ++ (lifetime (env.publishing serialise execution) execution).emitted ⟨store, []⟩ moments)
      ((lifetime (env.publishing serialise execution) execution).last ⟨store, []⟩ moments) :=
    Machine.accum_run (Written (env.publishing serialise execution) execution)
      (fun _ _ => True) (fun _ _ _ _ _ h _ hstep => h.step hstep) hstart (fun _ _ => trivial)
  exact hlast.identified hinjective

/-! ## A race and a redelivery -/

/-- A run is started; two calls tell of its one step and read the same stream, so that the
second one's append is a conflict and its facts are built again; a sweep passes, and the first
of them comes again. -/
def toldInARace : List Moment :=
  [.call (.arrive (handlingOf (startOf (planOf [workerStep "work"] [])) "start")),
    .call (.proceed 0 0), .call (.proceed 0 0),
    .call (.arrive (handlingOf (.event (.stepStarted "work" 1)) "started")),
    .call (.arrive (handlingOf (.event (.stepCompleted "work" 1
      [⟨"rows", "s3://rows", "ab", none, "application/json", .rows, none⟩] none)) "completed")),
    .call (.proceed 1 1), .call (.proceed 2 1), .call (.proceed 1 1), .call (.proceed 2 1),
    .meanwhile .global (.prune 0 8 ["run"]),
    .call (.proceed 2 2), .call (.proceed 2 2),
    .call (.arrive (handlingOf (.event (.stepStarted "work" 1)) "started")), .call (.proceed 3 3)]

theorem toldInARace_identified :
    (((lifetime (plainDeployment.publishing (fun _ => .null) "run") "run").emitted
      ⟨Inner.new, []⟩ toldInARace).map fun request => request.outbox.map (·.eventType)) =
        [["workflow.declared", "execution.requested", "execution.started"], ["step.started"],
          ["step.completed", "artifact.produced", "execution.completed"]] ∧
      Identified plainDeployment (fun _ => .null) "run"
        ((lifetime (plainDeployment.publishing (fun _ => .null) "run") "run").emitted
          ⟨Inner.new, []⟩ toldInARace)
        ((((lifetime (plainDeployment.publishing (fun _ => .null) "run") "run").last
          ⟨Inner.new, []⟩ toldInARace).store.stream "run").map RecordedMessage.pending) :=
  ⟨by decide +kernel,
    facts_identified plainDeployment (fun _ => .null) "run" Function.injective_id .new toldInARace⟩

end Aiwatcher.Store
