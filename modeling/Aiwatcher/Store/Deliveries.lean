import Aiwatcher.Engine.Emitted
import Aiwatcher.Store.Handle
import Aiwatcher.Store.Memory

/-!
# Aiwatcher.Store.Deliveries

At-least-once delivery is safe: whatever calls run side by side, and however often an
input comes again, the stream is the accepted inputs each followed by what was decided
on it, and the projection is the fold of that stream.

`Upheld` is the invariant.  A call's slice is a stretch of the stream from its
beginning, so an append at the version of the slice is an append behind the whole
stream, decided in the state the stream folds to.
-/

namespace Aiwatcher.Store

open Engine Library List Machine

/-! ## What a stream should hold -/

/-- The inputs that were accepted, in order. -/
def accepted (answers : List (Handling × Except StoreError AppendOutcome)) : List Handling :=
  answers.filterMap fun answer =>
    match answer.2 with
    | .ok (.appended _) => some answer.1
    | _ => none

/-- Some inputs, each followed by what the decider makes of it in the state the ones
before it lead to. -/
def blocks (d : Digests) : ExecutionState → List Handling → List PendingMessage
  | _, [] => []
  | state, handling :: rest =>
    match (machine d).step state handling.delivery with
    | none => blocks d state rest
    | some (outputs, after) => handling.pending :: outputs ++ blocks d after rest

/-- The stream and the projection of one execution are those of some inputs. -/
structure Recorded (d : Digests) (execution : String) (inputs : List Handling) (store : Inner) :
    Prop where
  once : (inputs.map Handling.inputId).Nodup
  decided : (machine d).accepts .empty (inputs.map Handling.delivery) = true
  stream : (store.stream execution).map RecordedMessage.pending = blocks d .empty inputs
  versions : (store.stream execution).map RecordedMessage.streamVersion =
    List.range' 1 (store.stream execution).length
  projection : inputs ≠ [] → store.projections[execution]? =
    some (projectionOf execution (replay (recordedEvents (store.stream execution)))
      (store.stream execution).length)

/-! ## Folding a stream -/

theorem recordedEvents_append (messages more : List RecordedMessage) :
    recordedEvents (messages ++ more) = recordedEvents messages ++ recordedEvents more := by
  simp [recordedEvents]

/-- The facts of a stream are read off what was appended. -/
theorem recordedEvents_eq (messages : List RecordedMessage) :
    recordedEvents messages = ((messages.map RecordedMessage.pending).filter fun m =>
      m.direction == .output).filterMap (·.message.event?) := by
  unfold recordedEvents
  rw [filter_map, filterMap_map]
  rfl

theorem recordedEvents_block {now : OffsetDateTime} {version : Nat} {input : PendingMessage}
    {outputs : List PendingMessage} (hinput : input.direction = .input)
    (houtputs : ∀ m ∈ outputs, m.direction = .output) :
    recordedEvents (numbered now version (input :: outputs)) =
      outputs.filterMap (·.message.event?) := by
  have hkept : (input :: outputs).filter (fun m => m.direction == .output) = outputs := by
    rw [filter_cons_of_neg (by simp [hinput]), filter_eq_self]
    intro m hm
    simp [houtputs m hm]
  rw [recordedEvents_eq, pending_numbered, hkept]

theorem replay_append (es es' : List WorkflowEvent) :
    replay (es ++ es') = es'.foldl evolve (replay es) := by
  simp [replay]

theorem record_contents (state : ExecutionState) (out : Decision) :
    state.record (contents out) = (out.filterMap (·.message.event?)).foldl evolve state := by
  unfold ExecutionState.record events contents
  rw [filterMap_map]
  rfl

theorem range'_append_length {n : Nat} {messages : List PendingMessage} {now : OffsetDateTime} :
    (numbered now n messages).map RecordedMessage.streamVersion =
      List.range' (n + 1) messages.length := by
  induction messages generalizing n with
  | nil => rfl
  | cons m ms ih => simp [numbered, ih, range'_succ]

/-! ## The blocks so far -/

theorem blocks_append {d : Digests} {state : ExecutionState} {inputs : List Handling}
    (more : List Handling) :
    blocks d state (inputs ++ more) = blocks d state inputs ++
      blocks d ((machine d).last state (inputs.map Handling.delivery)) more := by
  induction inputs generalizing state with
  | nil => rfl
  | cons h hs ih =>
    cases hstep : (machine d).step state h.delivery with
    | none =>
      rw [map_cons, last_cons_none hstep]
      simp only [cons_append, blocks, hstep]
      exact ih
    | some decided =>
      obtain ⟨out, after⟩ := decided
      rw [map_cons, last_cons_some hstep]
      simp only [cons_append, blocks, hstep, ih, append_assoc]

/-! ## The invariant -/

/-- Everything that holds of a store and its calls while `inputs` have been accepted. -/
structure Upheld (d : Digests) (execution : String) (inputs : List Handling) (s : Service Inner) :
    Prop where
  recorded : Recorded d execution inputs s.store
  state : replay (recordedEvents (s.store.stream execution)) =
    (machine d).last .empty (inputs.map Handling.delivery)
  seen : ∀ h ∈ inputs, (s.store.seenAt execution h.inputId).isSome = true
  inbox : ∀ id version, s.store.seenAt execution id = some version →
    s.store.holds execution = true
  snapshots : ∀ call ∈ s.calls, ∀ round slice, call.2 = .appending round slice →
    slice.version = slice.messages.length ∧ slice.messages <+: s.store.stream execution

/-- An execution this store has nothing of. -/
def Inner.Unstarted (store : Inner) (execution : String) : Prop :=
  store.stream execution = [] ∧ store.seen[execution]? = none ∧
    store.projections[execution]? = none

section Steps

variable {env : Deployment} {execution : String} {inputs : List Handling} {s : Service Inner}

theorem upheld_start {store : Inner} (h : store.Unstarted execution) :
    Upheld env.digests execution [] ⟨store, []⟩ := by
  obtain ⟨hstream, hseen, hprojection⟩ := h
  refine ⟨⟨by simp, rfl, ?_, ?_, by simp⟩, ?_, by simp, ?_, by simp⟩
  · simp [hstream, blocks]
  · simp [hstream]
  · simp [hstream, recordedEvents, replay, Machine.last, initialState]
  · intro id version hid
    simp [Inner.seenAt, hseen] at hid

/-- Calls may come and go, as long as those about to append hold a stretch of the stream. -/
theorem Upheld.withCalls (h : Upheld env.digests execution inputs s) {calls : List (Handling × Call)}
    (hcalls : ∀ call ∈ calls, ∀ round slice, call.2 = .appending round slice →
      slice.version = slice.messages.length ∧ slice.messages <+: s.store.stream execution) :
    Upheld env.digests execution inputs ⟨s.store, calls⟩ :=
  ⟨h.recorded, h.state, h.seen, h.inbox, hcalls⟩

theorem Upheld.withStore (h : Upheld env.digests execution inputs s) {store : Inner}
    (hstream : store.stream execution = s.store.stream execution)
    (hseen : store.seen = s.store.seen) (hprojections : store.projections = s.store.projections) :
    Upheld env.digests execution inputs ⟨store, s.calls⟩ := by
  have hseenAt : ∀ id, store.seenAt execution id = s.store.seenAt execution id := by
    simp [Inner.seenAt, hseen]
  have hholds : store.holds execution = s.store.holds execution := by simp [Inner.holds, hstream]
  obtain ⟨⟨honce, hdecided, hblocks, hversions, hprojection⟩, hstate, hin, hinbox, hcalls⟩ := h
  refine ⟨⟨honce, hdecided, ?_, ?_, ?_⟩, ?_, ?_, ?_, ?_⟩
  · simpa [hstream] using hblocks
  · simpa [hstream] using hversions
  · simpa [hstream, hprojections] using hprojection
  · simpa [hstream] using hstate
  · simpa [hseenAt] using hin
  · simpa [hseenAt, hholds] using hinbox
  · simpa [hstream] using hcalls

variable {handling : Handling} {outputs : Decision} {slice : StreamSlice}

theorem Upheld.settled (h : Upheld env.digests execution inputs s) {i : Nat} {there : Call}
    (hthere : ∀ round slice, there ≠ .appending round slice) :
    Upheld env.digests execution inputs ⟨s.store, s.calls.set i (handling, there)⟩ := by
  refine h.withCalls fun call hcall round slice hslice => ?_
  rcases mem_or_eq_of_mem_set hcall with hold | rfl
  · exact h.snapshots call hold round slice hslice
  · exact absurd hslice (hthere round slice)

/-! ### The phases of a call -/

theorem settle_ne_appending (handling : Handling) (handled : Handled) (round : Nat)
    (slice : StreamSlice) : Call.settle handling handled ≠ .appending round slice := by
  unfold Call.settle
  split <;> simp

theorem answered_ne_appending (handling : Handling) (n : Nat) (request : AppendRequest)
    (reply : Except StoreError AppendOutcome) (round : Nat) (slice : StreamSlice) :
    Call.answered handling n request reply ≠ .appending round slice := by
  unfold Call.answered
  split
  · exact settle_ne_appending _ _ _ _
  · split <;> simp
  · simp

theorem claimed_ne_appending (handling : Handling) (held : StreamSlice) (version : Nat)
    (reply : Except StoreError (Option ExecutionOwnership)) (round : Nat) (slice : StreamSlice) :
    Call.claimed execution handling held version reply ≠ .appending round slice := by
  unfold Call.claimed
  split
  · simp
  · split
    · simp
    · exact settle_ne_appending _ _ _ _

theorem slice_of_loaded {n round : Nat}
    (h : Call.loaded execution handling n (s.store.load handling.binding execution) =
      .appending round slice) : slice = .whole (s.store.stream execution) := by
  unfold Call.loaded Inner.load Inner.about at h
  cases hcheck : s.store.check handling.binding execution with
  | error error => simp [hcheck, Except.map] at h
  | ok u =>
    simp only [hcheck, Except.map] at h
    split at h
    · split at h
      · cases h
      · exact absurd h (settle_ne_appending _ _ _ _)
    · cases h
      rfl

/-! ### The append -/

/-- **The version check**: an append goes through on a slice that is the whole stream. -/
theorem messages_eq_stream
    (hslice : slice.version = slice.messages.length)
    (hfront : slice.messages <+: s.store.stream execution)
    (hversion : (handling.request env execution slice outputs).expectedVersion.check
      (s.store.stream execution).length = .ok ()) :
    slice.messages = s.store.stream execution := by
  refine hfront.eq_of_length ?_
  cases hempty : slice.messages.isEmpty with
  | true =>
    have hzero : (s.store.stream execution).length = 0 := by
      simpa [Handling.request, hempty, ExpectedVersion.check] using hversion
    simp [List.isEmpty_iff.mp hempty, hzero]
  | false =>
    have hlength : slice.version = (s.store.stream execution).length := by
      simpa [Handling.request, hempty, ExpectedVersion.check] using hversion
    rw [← hlength, hslice]

theorem holds_of_conflict
    {expected : Nat} (hfront : slice.messages <+: s.store.stream execution)
    (h : (handling.request env execution slice outputs).expectedVersion = .noStream ∧ expected = 0 ∨
      (handling.request env execution slice outputs).expectedVersion = .exact expected)
    (hmoved : expected ≠ (s.store.stream execution).length) :
    s.store.holds execution = true := by
  rw [Inner.holds_iff]
  intro hempty
  rw [hempty] at hfront hmoved
  rcases h with ⟨-, rfl⟩ | hexact
  · exact hmoved rfl
  · simp [Handling.request, prefix_nil.mp hfront] at hexact

theorem upheld_commit (h : Upheld env.digests execution inputs s) {establishing : Option ExecutionOwnership}
    {now : OffsetDateTime} (hslice : slice.version = slice.messages.length)
    (hmessages : slice.messages = s.store.stream execution)
    (hdecide : decide env.digests (replay slice.events) handling.input handling.inputId
      handling.now = .ok outputs)
    (hnew : s.store.seenAt execution handling.inputId = none) :
    Upheld env.digests execution (inputs ++ [handling])
      ⟨s.store.commit execution establishing (handling.request env execution slice outputs) now,
        s.calls⟩ := by
  let request := handling.request env execution slice outputs
  have hevents : slice.events = recordedEvents (s.store.stream execution) := by
    rw [← hmessages]
    rfl
  have hstep : (machine env.digests).step
      ((machine env.digests).last .empty (inputs.map Handling.delivery)) handling.delivery =
      some (outputs, ((machine env.digests).last .empty
        (inputs.map Handling.delivery)).record (contents outputs)) := by
    rw [← h.state, ← hevents]
    simp only [machine, Handling.delivery, hdecide]
  have hstream : (s.store.commit execution establishing request now).stream execution =
      s.store.stream execution ++ numbered now (s.store.stream execution).length
        (handling.pending :: outputs) := by
    rw [Inner.stream_commit, if_pos rfl]
    rfl
  have hfacts : recordedEvents (numbered now (s.store.stream execution).length
      (handling.pending :: outputs)) = outputs.filterMap (·.message.event?) :=
    recordedEvents_block rfl (decide_saysOutputs _ _ _ _ _ outputs hdecide)
  have hreplay : replay (recordedEvents
      ((s.store.commit execution establishing request now).stream execution)) =
      (outputs.filterMap (·.message.event?)).foldl evolve (replay slice.events) := by
    rw [hstream, recordedEvents_append, hfacts, replay_append, hevents]
  have hfresh : handling.inputId ∉ inputs.map Handling.inputId := by
    intro hmem
    obtain ⟨k, hk, hid⟩ := mem_map.mp hmem
    have hsome := h.seen k hk
    rw [hid, hnew] at hsome
    cases hsome
  refine ⟨⟨?_, ?_, ?_, ?_, ?_⟩, ?_, ?_, ?_, ?_⟩
  · rw [map_append, nodup_append]
    refine ⟨h.recorded.once, by simp, fun a ha b hb hab => ?_⟩
    rw [map_cons, map_nil, mem_singleton] at hb
    exact hfresh (hb ▸ hab ▸ ha)
  · rw [map_append]
    exact Machine.accepts_concat h.recorded.decided hstep
  · rw [hstream, map_append, h.recorded.stream, pending_numbered, blocks_append]
    simp only [blocks, hstep, append_nil]
  · rw [hstream, map_append, h.recorded.versions, range'_append_length, length_append,
      length_numbered, ← range'_append_1]
    simp [Nat.add_comm]
  · intro _
    rw [Inner.getElem?_projections_commit, if_pos rfl, hreplay, hstream]
    simp only [Handling.request, hslice, hmessages, length_append, length_numbered,
      length_cons, Nat.add_assoc, Nat.add_comm 1]
  · rw [hreplay, map_append, Machine.last_append, map_cons, map_nil,
      last_cons_some hstep, ← h.state, ← hevents, record_contents]
    rfl
  · intro k hk
    rw [Inner.seenAt_commit]
    split
    · rfl
    · rcases mem_append.mp hk with hold | hself
      · exact h.seen k hold
      · rw [mem_singleton] at hself
        subst hself
        rename_i hne
        exact absurd ⟨rfl, rfl⟩ hne
  · intro _ _ _
    rw [Inner.holds_iff]
    simp [hstream, request, numbered]
  · intro call hcall round slice' hphase
    obtain ⟨hlength, hfront⟩ := h.snapshots call hcall round slice' hphase
    exact ⟨hlength, hstream ▸ hfront.trans (prefix_append ..)⟩

/-- An append answered with a conflict, or with what the input did the first time. -/
def lostOrRepeated : Except StoreError AppendOutcome → Bool
  | .error (.versionConflict ..) | .ok (.duplicate _) => true
  | _ => false

theorem accepted_append (answers more : List (Handling × Except StoreError AppendOutcome)) :
    accepted (answers ++ more) = accepted answers ++ accepted more := filterMap_append

section

variable (h : Upheld env.digests execution inputs s)

include h

theorem Upheld.silent : Upheld env.digests execution (inputs ++ accepted []) s := by
  simpa [accepted] using h

/-- **One append**: what it accepts is upheld with the rest, and where it is lost or
repeated it leaves the store as it was. -/
theorem upheld_append {now : OffsetDateTime}
    {reply : Except StoreError AppendOutcome} {after : Inner}
    (hslice : slice.version = slice.messages.length)
    (hfront : slice.messages <+: s.store.stream execution)
    (hdecide : decide env.digests (replay slice.events) handling.input handling.inputId
      handling.now = .ok outputs)
    (happend : Appending env.payloadSize s.store handling.binding execution
      (handling.request env execution slice outputs) now reply after) :
    Upheld env.digests execution (inputs ++ accepted [(handling, reply)]) ⟨after, s.calls⟩ ∧
      (lostOrRepeated reply = true → after = s.store) := by
  have hrefused : ∀ error, (∀ expected actual, error ≠ .versionConflict expected actual) →
      lostOrRepeated (.error error) = true → False := by
    intro error hne hlost
    cases error <;> simp_all [lostOrRepeated]
  have hreached : Upheld env.digests execution inputs ⟨s.store.reach execution, s.calls⟩ :=
    h.withStore (Inner.stream_reach ..) rfl rfl
  cases happend with
  | tooLarge hsize =>
    refine ⟨by simpa [accepted] using h, fun hlost => ?_⟩
    exact (hrefused _ (fun _ _ heq => checkPayloads_ne_conflict (heq ▸ hsize)) hlost).elim
  | outOfScope hscope =>
    refine ⟨by simpa [accepted] using hreached, fun hlost => ?_⟩
    exact (hrefused _ (fun _ _ heq => appending_ne_conflict (heq ▸ hscope)) hlost).elim
  | duplicate hseen =>
    have hsame := s.store.reach_of_holds (h.inbox _ _ hseen)
    exact ⟨by simpa [accepted] using hreached, fun _ => hsame⟩
  | conflict hexpected hmoved =>
    have hsame := s.store.reach_of_holds (holds_of_conflict hfront hexpected hmoved)
    exact ⟨by simpa [accepted] using hreached, fun _ => hsame⟩
  | written _ _ hnew hversion =>
    have hmessages := messages_eq_stream hslice hfront hversion
    exact ⟨upheld_commit h hslice hmessages hdecide hnew, fun hlost => by cases hlost⟩

theorem upheld_step {act : Act} {s' : Service Inner}
    {out : List (Handling × Except StoreError AppendOutcome)}
    (hstep : (service env execution).step s act = some (out, s')) :
    Upheld env.digests execution (inputs ++ accepted out) s' ∧
      ∀ answer ∈ out, lostOrRepeated answer.2 = true → s'.store = s.store := by
  cases act with
  | arrive handling =>
    cases hstep
    refine ⟨(h.withCalls fun call hcall round slice hphase => ?_).silent, by simp⟩
    rcases mem_append.mp hcall with hold | hnew
    · exact h.snapshots call hold round slice hphase
    · rw [mem_singleton] at hnew
      subst hnew
      unfold Call.enter at hphase
      split at hphase <;> cases hphase
  | proceed i at' =>
    simp only [service, Option.bind_eq_some_iff, Option.map_eq_some_iff] at hstep
    obtain ⟨⟨handling, here⟩, hcall, ⟨there, store, reply⟩, hmove, hresult⟩ := hstep
    cases hresult
    have hmem : (handling, here) ∈ s.calls := List.mem_of_getElem? hcall
    cases here with
    | loading round =>
      cases hmove
      refine ⟨(h.withCalls fun call hcall n slice hphase => ?_).silent, by simp⟩
      rcases mem_or_eq_of_mem_set hcall with hold | rfl
      · exact h.snapshots call hold n slice hphase
      · have hslice := slice_of_loaded hphase
        subst hslice
        exact ⟨rfl, prefix_refl _⟩
    | claiming slice version =>
      cases hmove
      refine ⟨(h.settled fun n slice' => ?_).silent, by simp⟩
      exact claimed_ne_appending handling slice version _ n slice'
    | appending round slice =>
      obtain ⟨hslice, hfront⟩ := h.snapshots _ hmem round slice rfl
      simp only [Call.step] at hmove
      split at hmove
      · cases hmove
        exact ⟨(h.settled (by simp)).silent, by simp⟩
      · rename_i outputs hdecide
        cases hmove
        obtain ⟨hup, hlost⟩ := upheld_append h hslice hfront hdecide
          (appending_append env.payloadSize s.store handling.binding execution _ at')
        refine ⟨hup.settled fun n slice' => answered_ne_appending _ _ _ _ n slice',
          fun answer ha => ?_⟩
        simp only [Option.toList_some, map_cons, map_nil, mem_singleton] at ha
        subst ha
        exact hlost
    | advancing handled =>
      simp only [Call.step] at hmove
      split at hmove
      · cases hmove
      · cases hmove
        rename_i processor checkpoint _
        have hstore : Upheld env.digests execution inputs
            ⟨(s.store.advanceCheckpoint handling.binding processor checkpoint).2, s.calls⟩ := by
          unfold Inner.advanceCheckpoint
          split
          · exact h
          · exact h.withStore rfl rfl rfl
        refine ⟨(hstore.settled (by simp)).silent, fun answer ha => ?_⟩
        cases ha
    | done result => cases hmove

end

end Steps

/-- **At-least-once delivery is safe.** Whatever calls there are on an execution and in
whatever order they proceed, no input is accepted twice; the stream is the accepted
inputs, each followed by what was decided on it, numbered in order; the projection is the
fold of that stream; and an append that is answered with a conflict or a duplicate leaves
every table as it was. -/
theorem deliveries_are_safe (env : Deployment) (execution : String) (store : Inner)
    (hfresh : store.Unstarted execution) (acts : List Act) :
    Recorded env.digests execution
        (accepted ((service env execution).emitted ⟨store, []⟩ acts))
        ((service env execution).last ⟨store, []⟩ acts).store ∧
      ∀ st ∈ (service env execution).run ⟨store, []⟩ acts, ∀ answer ∈ st.out,
        lostOrRepeated answer.2 = true → st.after.store = st.before.store := by
  constructor
  · have hlast : Upheld env.digests execution
        (accepted ([] ++ (service env execution).emitted ⟨store, []⟩ acts))
        ((service env execution).last ⟨store, []⟩ acts) :=
      Machine.accum_run (fun answers s => Upheld env.digests execution (accepted answers) s)
        (fun _ _ => True)
        (fun answers s act out s' hup _ hstep => by
          rw [accepted_append]
          exact (upheld_step hup hstep).1)
        (upheld_start hfresh) (fun _ _ => trivial)
    exact hlast.recorded
  · exact Machine.forall_run (fun s => ∃ inputs, Upheld env.digests execution inputs s)
      (fun s act out s' ⟨inputs, hup⟩ hstep => ⟨_, (upheld_step hup hstep).1⟩)
      (fun st ⟨inputs, hup⟩ hstep => (upheld_step hup hstep).2)
      ⟨[], upheld_start hfresh⟩ acts

/-! ## Two callers and a redelivery -/

/-- Plain digests, small messages and nothing published. -/
def plainDeployment : Deployment := ⟨plainDigests, fun _ => 512, fun _ _ _ => []⟩

/-- A message of a caller, by its id. -/
def messageOf (id : String) : MessageMetadata := ⟨schemaVersion, id, 0, "run", id, none, none⟩

def handlingOf (input : WorkflowMessage) (id : String) : Handling :=
  ⟨.global, false, input, messageOf id, 0, none, none⟩

/-- Two callers start the same run: both read an empty stream, the second one's append is a
conflict and its second round finds a started run; then the first start comes again. -/
def startedTwice : List Act :=
  [.arrive (handlingOf (startOf (planOf [workerStep "work"] [])) "first"),
    .arrive (handlingOf (startOf (planOf [workerStep "work"] [])) "second"),
    .proceed 0 0, .proceed 1 0, .proceed 0 1, .proceed 1 2, .proceed 1 3, .proceed 1 4,
    .arrive (handlingOf (startOf (planOf [workerStep "work"] [])) "first"), .proceed 2 5]

theorem unstarted_new (execution : String) : Inner.new.Unstarted execution := by
  simp [Inner.Unstarted, Inner.new, Inner.stream]

theorem startedTwice_is_safe :
    (accepted ((service plainDeployment "run").emitted ⟨Inner.new, []⟩ startedTwice)).map
        Handling.inputId = ["first"] ∧
      Recorded plainDigests "run"
        (accepted ((service plainDeployment "run").emitted ⟨Inner.new, []⟩ startedTwice))
        ((service plainDeployment "run").last ⟨Inner.new, []⟩ startedTwice).store ∧
      ∀ st ∈ (service plainDeployment "run").run ⟨Inner.new, []⟩ startedTwice, ∀ answer ∈ st.out,
        lostOrRepeated answer.2 = true → st.after.store = st.before.store :=
  ⟨by decide +kernel,
    deliveries_are_safe plainDeployment "run" .new (unstarted_new "run") startedTwice⟩

end Aiwatcher.Store
