import Aiwatcher.Library.Feed
import Aiwatcher.Store.Adapters
import Aiwatcher.Store.Identified

/-!
# Aiwatcher.Store.Lasting

What lasts in the memory store, whatever is asked of it and through whichever handles.  Until
a sweep forgets a run its stream is extended and never rewritten, counted throughout, and an
input it has recorded is not appended again; and a slot that is held or decided is nobody
else's.
-/

namespace Aiwatcher.Store

open Engine Library List

variable {size : WorkflowMessage → Nat} {execution : String} {inner : Inner}

/-- The memory store after some calls. -/
def held (size : WorkflowMessage → Nat) (asked : List Asked) : Inner :=
  (memoryAdapter size).last .new asked

/-- No call but a sweep takes a run away, and this one does not. -/
def Inner.spares (inner : Inner) (execution : String) (asked : Asked) : Bool :=
  match asked.op with
  | .prune before limit visits =>
    !(inner.doomed asked.binding before limit visits).contains execution
  | _ => true

theorem Inner.Keeps.of_spares {call : Asked} (h : inner.spares execution call = true) :
    inner.Keeps execution (call.op.perform size inner call.binding).2 := by
  obtain ⟨binding, op, visits⟩ := call
  cases op with
  | append => exact append ..
  | _ => exact perform h

/-! ## Versions -/

/-- Every stream counts its messages. -/
def Inner.Counted (inner : Inner) : Prop :=
  ∀ e, (inner.stream e).map (·.streamVersion) = range' 1 (inner.stream e).length

theorem Inner.Counted.perform (h : inner.Counted) (op : Operation) (binding : ScopeBinding) :
    (op.perform size inner binding).2.Counted := by
  have hsame : ∀ {after : Inner}, (∀ e, after.stream e = inner.stream e) → after.Counted :=
    fun hstream e => by rw [hstream, h e]
  have hwrote := wrote_perform size binding inner op
  generalize (op.perform size inner binding).2 = after at hwrote
  cases hwrote with
  | @append execution request now =>
    have happending := appending_append size inner binding execution request now
    generalize (inner.append binding size execution request now).1 = answer at happending
    generalize (inner.append binding size execution request now).2 = after at happending
    cases happending with
    | @written establishing =>
      intro e
      rw [inner.stream_commit execution establishing request now]
      split
      · rw [map_append, h, range'_append_length, length_append, length_numbered, Nat.add_comm,
          ← range'_append_1]
      · exact h e
    | tooLarge => exact hsame fun _ => rfl
    | _ => exact hsame (stream_reach _ _)
  | prune =>
    intro e
    rw [Inner.prune, stream_forget]
    split
    · rfl
    · exact h e
  | _ => exact hsame fun _ => rfl

theorem counted_held (size : WorkflowMessage → Nat) (asked : List Asked) :
    (held size asked).Counted :=
  Machine.inv_last Inner.Counted (fun inner call out after h hstep => by
    cases hstep
    exact h.perform call.op call.binding) (fun _ => rfl) asked

theorem Inner.Counted.contiguous (h : inner.Counted) (execution : String) :
    Contiguous RecordedMessage.streamVersion (inner.stream execution) := by
  intro i recorded hrecorded
  have hversion := congrArg (·[i]?) (h execution)
  have hlt := (List.getElem?_eq_some_iff.mp hrecorded).1
  simp only [getElem?_map, hrecorded, getElem?_range', hlt, Option.map_some,
    Option.some.injEq] at hversion
  omega

/-! ## Whole runs -/

theorem keeps_held {asked later : List Asked}
    (hspared : ∀ st ∈ (memoryAdapter size).run (held size asked) later,
      st.before.spares execution st.input = true) :
    (held size asked).Keeps execution (held size (asked ++ later)) := by
  rw [show held size (asked ++ later) = (memoryAdapter size).last (held size asked) later from
    Machine.last_append ..]
  refine Machine.inv_last_of_admits ((held size asked).Keeps execution)
    (fun inner call => inner.spares execution call = true)
    (fun inner call out after h hcall hstep => ?_) (.refl _) hspared
  cases hstep
  have hkeeps : inner.Keeps execution (call.op.perform size inner call.binding).2 :=
    .of_spares hcall
  exact ⟨fun id hid => hkeeps.seen id (h.seen id hid), h.stream.trans hkeeps.stream⟩

/-- **Streams only grow**: after any calls a page of a stream is what stands behind the version it
is asked from; and after further ones, none of which sweeps the run away, the stream is still there,
in front of what came, and no input it had recorded is appended. -/
theorem streams_only_grow (size : WorkflowMessage → Nat) (asked later : List Asked)
    (execution : String) (hspared : ∀ st ∈ (memoryAdapter size).run (held size asked) later,
      st.before.spares execution st.input = true) :
    (∀ after limit, (StreamSlice.page ((held size asked).stream execution) after limit).messages =
        (((held size asked).stream execution).drop after).take limit) ∧
      (held size asked).stream execution <+: (held size (asked ++ later)).stream execution ∧
      ∀ binding request now,
        ((held size asked).seenAt execution request.inputId).isSome = true →
          granted ((held size (asked ++ later)).append binding size execution request now).1 =
            false := by
  have hkeeps := keeps_held hspared
  refine ⟨fun after limit => ?_, hkeeps.stream, fun binding request now hseen => ?_⟩
  · have hcontiguous := (counted_held size asked).contiguous execution
    have hdue := due_eq_filter hcontiguous (fun _ => true) after
    simp only [Bool.and_true, filter_true] at hdue
    rw [StreamSlice.page, hdue]
  · have hlater := hkeeps.seen _ hseen
    have happending :=
      appending_append size (held size (asked ++ later)) binding execution request now
    generalize ((held size (asked ++ later)).append binding size execution request now).1 = answer,
      ((held size (asked ++ later)).append binding size execution request now).2 = after
      at happending ⊢
    cases happending with
    | written hsize hscope hnew => simp [hnew] at hlater
    | _ => rfl

/-- A sweep meets a run that is still under way, and the run is cancelled. -/
def sweptAndCancelled : List Asked :=
  let stream := (held (fun _ => 0) askedOfBoth).stream "run"
  let request := appendBehind stream (.command (.cancelExecution "over")) "stop"
  ([.prune 10 5 ["run"], .append "run" request 20] : List Operation).map
    fun op => ⟨.global, op, ["run"]⟩

theorem streams_only_grow_cancelled : (held (fun _ => 0) askedOfBoth).stream "run" <+:
    (held (fun _ => 0) (askedOfBoth ++ sweptAndCancelled)).stream "run" :=
  (streams_only_grow (fun _ => 0) askedOfBoth sweptAndCancelled "run" (by decide +kernel)).2.1

/-! ## Slots -/

/-- A call with no say about a slot as it stands: its holder's settlements have one, and admissions
once it may be taken. -/
def SlotRecord.stands (record : SlotRecord) (key : SlotKey) (call : Asked) : Bool :=
  match call.op with
  | .admitSlot request => request.key != key || !record.isAvailable request.now
  | .settleSlot settled owner .. => settled != key || record.leaseOwner != some owner
  | _ => true

/-- What one operation makes of a slot. -/
inductive SlotMove (key : SlotKey) (held : Option SlotRecord) : Operation → Option SlotRecord → Prop
  | same {op} : SlotMove key held op held
  | admitted {request : SlotAdmissionRequest} (hkey : request.key = key)
      (hfree : heldAnswer held request.now = none) : SlotMove key held (.admitSlot request)
      (some (.admitted key request.owner request.now (held.bind (·.detail))))
  | settled {owner settlement now record} (hheld : held = some record)
      (howner : record.leaseOwner = some owner) : SlotMove key held
      (.settleSlot key owner settlement now) (some (record.settle settlement now))

theorem slotMove_perform (size : WorkflowMessage → Nat) (inner : Inner) (binding : ScopeBinding)
    (op : Operation) (key : SlotKey) :
    SlotMove key inner.slots[key]? op (op.perform size inner binding).2.slots[key]? := by
  cases op with
  | admitSlot request =>
    show SlotMove _ _ _ (inner.admitSlot binding request).2.slots[key]?
    unfold Inner.admitSlot
    dsimp only
    split
    · exact .same
    split
    · exact .same
    split
    · exact .same
    rw [Table.getElem?_insert]
    split
    · rename_i hfree _ _ hkey
      cases hkey
      exact .admitted rfl hfree
    · exact .same
  | settleSlot settled owner settlement now =>
    show SlotMove _ _ _ (inner.settleSlot binding settled owner settlement now).2.slots[key]?
    unfold Inner.settleSlot
    split
    · exact .same
    split
    · exact .same
    split
    · exact .same
    rw [Table.getElem?_insert]
    split
    · rename_i hrow howner hkey
      cases hkey
      exact .settled hrow (not_not.mp howner)
    · exact .same
  | append execution request now =>
    have happending := appending_append size inner binding execution request now
    show SlotMove _ _ _ (inner.append binding size execution request now).2.slots[key]?
    generalize (inner.append binding size execution request now).1 = answer,
      (inner.append binding size execution request now).2 = after at happending ⊢
    cases happending <;> exact .same
  | takeDeciderLease e holder now =>
    show SlotMove _ _ _ (inner.takeDeciderLease binding e holder now).2.slots[key]?
    unfold Inner.takeDeciderLease
    grind [SlotMove]
  | releaseDeciderLease e holder now =>
    show SlotMove _ _ _ (inner.releaseDeciderLease binding e holder now).2.slots[key]?
    unfold Inner.releaseDeciderLease
    grind [SlotMove]
  | claimAttempt filter owner now =>
    show SlotMove _ _ _ (inner.claimAttempt binding filter owner now).2.slots[key]?
    unfold Inner.claimAttempt
    grind [SlotMove]
  | heartbeat attempt owner now =>
    show SlotMove _ _ _ (inner.heartbeat binding attempt owner now).2.slots[key]?
    unfold Inner.heartbeat
    grind [SlotMove]
  | advanceCheckpoint processor cursor =>
    show SlotMove _ _ _ (inner.advanceCheckpoint binding processor cursor).2.slots[key]?
    unfold Inner.advanceCheckpoint
    grind [SlotMove]
  | _ => exact .same

theorem slotMove_step {call : Asked} {out : List (Σ op : Operation, op.Reply)} {after : Inner}
    (hstep : (memoryAdapter size).step inner call = some (out, after)) (key : SlotKey) :
    SlotMove key inner.slots[key]? call.op after.slots[key]? := by
  cases hstep
  exact slotMove_perform ..

/-- Nobody holds a slot that is decided. -/
def Inner.DecidedFree (inner : Inner) : Prop :=
  ∀ (key : SlotKey) (record : SlotRecord), inner.slots[key]? = some record →
    record.outcome.isSome = true → record.leaseOwner = none

theorem decidedFree_held (size : WorkflowMessage → Nat) (asked : List Asked) :
    (held size asked).DecidedFree := by
  refine Machine.inv_last Inner.DecidedFree (fun inner call out after h hstep => ?_)
    (by simp [Inner.DecidedFree, Inner.new]) asked
  intro key record hrecord hdecided
  have hmove := slotMove_step hstep key
  rw [hrecord] at hmove
  generalize call.op = op, hheld : inner.slots[key]? = held at hmove
  cases hmove with
  | same => exact h key record hheld hdecided
  | admitted => cases hdecided
  | settled => rename_i settlement _ _ _ _; cases settlement <;> rfl

/-- **Slots exclude**: a slot that is held stays as it is, and nobody else is admitted to it, until
its holder settles it or somebody asks for it when the lease has ended; and a slot that is decided
stays as it is for good. -/
theorem slots_exclude (size : WorkflowMessage → Nat) (asked later : List Asked) {key : SlotKey}
    {record : SlotRecord} (hheld : (held size asked).slots[key]? = some record)
    (hothers : record.outcome = none → ∀ call ∈ later, record.stands key call = true) :
    (held size (asked ++ later)).slots[key]? = some record ∧
      ∀ binding request, request.key = key → record.isAvailable request.now = false →
        ((held size (asked ++ later)).admitSlot binding request).1 ≠ .ok .admitted := by
  have hfree : ∀ now, heldAnswer (some record) now = none → record.isAvailable now = true :=
    fun now hnone => by
      cases houtcome : record.outcome <;> simp_all [heldAnswer]
  have hstands : ∀ call ∈ later, record.stands key call = true := by
    cases houtcome : record.outcome with
    | none => exact hothers houtcome
    | some outcome =>
      have hnobody := decidedFree_held size asked key record hheld (by rw [houtcome]; rfl)
      intro call _
      unfold SlotRecord.stands
      split <;> simp [SlotRecord.isAvailable, houtcome, hnobody]
  have hafter : (held size (asked ++ later)).slots[key]? = some record := by
    rw [show held size (asked ++ later) = (memoryAdapter size).last (held size asked) later from
      Machine.last_append ..]
    refine Machine.inv_last_of_admits (fun inner : Inner => inner.slots[key]? = some record)
      (fun _ call => record.stands key call = true) (fun inner call out after h hcall hstep => ?_)
      hheld fun st hst => hstands st.input (Machine.input_mem_of_mem_run hst)
    have hmove := slotMove_step hstep key
    rw [h] at hmove
    unfold SlotRecord.stands at hcall
    generalize call.op = op, after.slots[key]? = moved at hmove hcall ⊢
    cases hmove with
    | same => rfl
    | admitted hkey hnone => simp [hkey, hfree _ hnone] at hcall
    | settled hrow howner =>
      cases hrow
      simp [howner] at hcall
  refine ⟨hafter, fun binding request hkey hbusy => ?_⟩
  cases hanswer : heldAnswer (some record) request.now with
  | none => simp [hfree _ hanswer] at hbusy
  | some answer =>
    have hrefused : answer ≠ .admitted := by
      grind [heldAnswer]
    unfold Inner.admitSlot
    grind

def nightSlot : SlotKey := ⟨.workflow, "nightly", 0⟩

/-- One replica takes a slot, and another one asks for it and settles it. -/
def takenByOne : List Asked := [⟨.global, .admitSlot ⟨nightSlot, "one", .skip, 3⟩, []⟩]

def askedByAnother : List Asked :=
  [⟨.global, .admitSlot ⟨nightSlot, "two", .skip, 4⟩, []⟩,
    ⟨.global, .settleSlot nightSlot "two" (.started "run") 5, []⟩]

theorem slots_exclude_another :
    (held (fun _ => 0) (takenByOne ++ askedByAnother)).slots[nightSlot]? =
      some (.admitted nightSlot "one" 3 none) :=
  (slots_exclude (fun _ => 0) takenByOne askedByAnother (by decide +kernel)
    fun _ => by decide +kernel).1

end Aiwatcher.Store
