import Aiwatcher.Engine.Timer

/-!
# Aiwatcher.Engine.Handler

The row a reactor or a worker takes before it does any work (`claim.rs`), and what
the store does with it.

What one decision does to the claim table, derived from its own outputs
(`handler.rs`).

A run beside the claim table its decisions write.  A decision is appended with its
rows, a claim and a heartbeat touch the table alone, and what a decision does to the
rows of one step is what its messages about that step do (`Appended`).
-/

namespace Aiwatcher.Engine

open List Option Std

/-! ## Keys -/

/-- Which attempt, of which step, of which execution. -/
structure AttemptKey where
  executionId : String
  stepId : String
  attempt : UInt32
  deriving DecidableEq, Repr

namespace AttemptKey

/-- Keys in field order, as the derived order has them. -/
instance : Ord AttemptKey where
  compare := compareLex (compareOn executionId) (compareLex (compareOn stepId) (compareOn attempt))

instance : Std.TransOrd AttemptKey :=
  inferInstanceAs (Std.TransCmp
    (compareLex (compareOn executionId) (compareLex (compareOn stepId) (compareOn attempt))))

instance : Std.LawfulEqOrd AttemptKey where
  eq_of_compare {a b} h := by
    have hlex : compareLex (compareOn executionId)
        (compareLex (compareOn stepId) (compareOn attempt)) a b = .eq := h
    rw [compareLex_eq_eq, compareLex_eq_eq] at hlex
    obtain ⟨h₁, h₂, h₃⟩ := hlex
    have h₁ : a.executionId = b.executionId := Std.LawfulEqOrd.eq_of_compare h₁
    have h₂ : a.stepId = b.stepId := Std.LawfulEqOrd.eq_of_compare h₂
    have h₃ : a.attempt = b.attempt := Std.LawfulEqOrd.eq_of_compare h₃
    cases a
    cases b
    simp_all

end AttemptKey

/-! ## Rows -/

/-- One dispatched attempt, and whether anybody holds it. -/
structure AttemptRow where
  key : AttemptKey
  runtime : RuntimeKind
  commandId : String
  queue : Option String
  taskRef : Option String
  state : StateType
  leaseOwner : Option String
  previousOwner : Option String
  claimedAt : Option OffsetDateTime
  notBefore : Option OffsetDateTime

namespace AttemptRow

/-- A dispatched attempt nobody has taken yet. -/
def claimable (key : AttemptKey) (runtime : RuntimeKind) (commandId : String) : AttemptRow where
  key := key
  runtime := runtime
  commandId := commandId
  queue := none
  taskRef := none
  state := .pending
  leaseOwner := none
  previousOwner := none
  claimedAt := none
  notBefore := none

def onQueue (row : AttemptRow) (queue taskRef : String) : AttemptRow :=
  { row with queue := some queue, taskRef := some taskRef }

/-- Whether somebody still has to take this row. -/
def awaitsAClaimant (row : AttemptRow) (now : OffsetDateTime) : Bool :=
  !row.state.isTerminal && row.state != .awaitingInput && leaseExpired row.claimedAt now

/-- Whether this row may be taken now. -/
def isClaimable (row : AttemptRow) (now : OffsetDateTime) : Bool :=
  row.awaitsAClaimant now && row.notBefore.all fun at' => Decidable.decide (at' ≤ now)

/-- Whether `owner` still holds this row. -/
def isHeldBy (row : AttemptRow) (owner : String) (now : OffsetDateTime) : Bool :=
  row.leaseOwner == some owner && !leaseExpired row.claimedAt now

/-- Take this row for `owner`, until the lease runs out. -/
def claim (row : AttemptRow) (owner : String) (now : OffsetDateTime) : AttemptRow :=
  { row with
    previousOwner := if row.leaseOwner != some owner then row.leaseOwner else row.previousOwner
    leaseOwner := some owner
    claimedAt := some now
    state := .running }

/-- Stop holding this row, without ending it. -/
def park (row : AttemptRow) : AttemptRow :=
  { row with state := .awaitingInput, leaseOwner := none, previousOwner := none, claimedAt := none }

end AttemptRow

/-- What a claimant is willing to take. -/
structure ClaimFilter where
  attempt : Option AttemptKey
  runtimes : List RuntimeKind
  queues : List String
  tasks : List String

/-- Whether this claimant would take that row. -/
def ClaimFilter.matches (filter : ClaimFilter) (row : AttemptRow) : Bool :=
  let named := match filter.attempt with
    | some key => key == row.key
    | none => !row.runtime.isClaimedByKey
  named && match row.queue with
    | some queue => filter.queues.contains queue && row.taskRef.any fun t => filter.tasks.contains t
    | none => filter.runtimes.contains row.runtime

/-! ## The table -/

abbrev ClaimTable := BTreeMap AttemptKey AttemptRow

/-- What one decision does to the claim table. -/
inductive AttemptWrite where
  | dispatch (row : AttemptRow)
  | park (key : AttemptKey)
  | retire (key : AttemptKey)

/-- What the store makes of it. -/
def AttemptWrite.write : AttemptWrite → Library.Write AttemptKey AttemptRow
  | .dispatch row => .put row.key row
  | .park key => .edit key AttemptRow.park
  | .retire key => .drop key

namespace ClaimTable

/-- The claim table's part of an `append`. -/
def append (table : ClaimTable) (rows : List AttemptWrite) : ClaimTable :=
  Library.Write.applyAll table (rows.map AttemptWrite.write)

/-- `claim_attempt`: the first row that may be taken and is wanted, in key order. -/
def claimAttempt (table : ClaimTable) (filter : ClaimFilter) (owner : String)
    (now : OffsetDateTime) : ClaimTable :=
  match (BTreeMap.values table).find? fun row => row.isClaimable now && filter.matches row with
  | none => table
  | some row => table.modify row.key fun row => row.claim owner now

/-- `heartbeat`: the holder renews its lease, and nobody else does. -/
def heartbeat (table : ClaimTable) (key : AttemptKey) (owner : String) (now : OffsetDateTime) :
    ClaimTable :=
  table.modify key fun row =>
    if row.isHeldBy owner now then { row with claimedAt := some now } else row

end ClaimTable

/-- Whether this step's attempts reach the claim table at all. -/
def dispatchedStep (run : Execution) (stepId : String) : Bool :=
  match (run.plan.step stepId).map PlanStep.runtime with
  | some (.humanInput _) | none => false
  | _ => true

/-- The attempt of this step that has a row in the claim table, if any. -/
def dispatchedAttempt (run : Execution) (stepId : String) : Option UInt32 :=
  if dispatchedStep run stepId then
    ((run.step stepId).map (·.currentAttempt)).filter fun attempt => Decidable.decide (0 < attempt)
  else none

/-- Which attempt this fact ends. -/
def settled : WorkflowEvent → Option (String × UInt32)
  | .stepCompleted stepId attempt .. => some (stepId, attempt)
  | .stepCacheHit stepId attempt .. => some (stepId, attempt)
  | .stepFailed stepId attempt _ => some (stepId, attempt)
  | _ => none

/-- The instant a retry in this same decision resolved to, if there was one. -/
def retryDelayOf (outputs : List PendingMessage) (stepId : String) (attempt : UInt32) :
    Option OffsetDateTime :=
  outputs.findSome? fun message =>
    match message.message with
    | .event (.stepRetryScheduled id number notBefore) =>
      if id == stepId && number == attempt then some notBefore else none
    | _ => none

/-- The row a dispatch makes claimable. -/
def dispatchRow (execution : String) (run : Execution) (outputs : List PendingMessage)
    (commandId stepId : String) (attempt : UInt32) (runtime : RuntimeKind) : AttemptRow :=
  let row := AttemptRow.claimable ⟨execution, stepId, attempt⟩ runtime commandId
  let row := match (run.plan.step stepId).map PlanStep.runtime with
    | some (.pythonTask spec) => row.onQueue spec.queue spec.taskRef
    | some (.containerJob spec) => row.onQueue spec.queue spec.taskRef
    | _ => row
  match retryDelayOf outputs stepId attempt with
  | some notBefore => { row with notBefore := some notBefore }
  | none => row

/-- What one message of a decision does to the claim table. -/
def attemptRow (execution : String) (run : Execution) (outputs : List PendingMessage)
    (message : PendingMessage) : Option AttemptWrite :=
  match message.message with
  | .command (.executeStep stepId attempt runtime _) =>
    some (.dispatch
      (dispatchRow execution run outputs message.metadata.messageId stepId attempt runtime))
  | .event (.inputRequested stepId attempt _) =>
    if dispatchedStep run stepId then some (.park ⟨execution, stepId, attempt⟩) else none
  | .event (.inputProvided stepId attempt ..) =>
    if dispatchedStep run stepId then some (.retire ⟨execution, stepId, attempt⟩) else none
  | .event (.stepSkipped stepId _) =>
    (dispatchedAttempt run stepId).map fun attempt => .retire ⟨execution, stepId, attempt⟩
  | .event event =>
    (settled event).map fun ended => .retire ⟨execution, ended.1, ended.2⟩
  | .command _ | .hosted _ => none

/-- The claim table's side of one decision. -/
def attemptRows (execution : String) (after : ExecutionState) (outputs : List PendingMessage) :
    List AttemptWrite :=
  match after.isActive with
  | none => []
  | some run => outputs.filterMap (attemptRow execution run outputs)

open Library

/-! ## A run and its claims -/

/-- A run and the claim table beside it. -/
structure ClaimedRun where
  run : ExecutionState
  claims : ClaimTable

/-- An empty stream and an empty table. -/
def ClaimedRun.start : ClaimedRun := ⟨.empty, ∅⟩

/-- What may happen to them. -/
inductive ClaimedInput where
  | deliver (delivery : Delivery)
  | claim (filter : ClaimFilter) (owner : String) (now : OffsetDateTime)
  | heartbeat (key : AttemptKey) (owner : String) (now : OffsetDateTime)

/-- Decisions are appended with their rows; claimants and holders write the table alone. -/
def claimMachine (d : Digests) (execution : String) :
    Machine ClaimedRun ClaimedInput PendingMessage where
  step before
    | .deliver delivery =>
      ((machine d).step before.run delivery).map fun decided =>
        (decided.1, ⟨decided.2, before.claims.append (attemptRows execution decided.2 decided.1)⟩)
    | .claim filter owner now =>
      some ([], { before with claims := before.claims.claimAttempt filter owner now })
    | .heartbeat key owner now =>
      some ([], { before with claims := before.claims.heartbeat key owner now })

/-! ## What one message does to one row -/

/-- Whether attempt `n` of step `t` has a row after a message, from whether it had one. -/
def rowAfter (run : Execution) (t : String) (n : UInt32) (there : Bool) : WorkflowMessage → Bool
  | .command (.executeStep id number ..) => there || (id == t && number == n)
  | .event (.inputProvided id number ..) =>
    there && !(dispatchedStep run id && (id == t && number == n))
  | .event (.stepSkipped id _) =>
    there && !(dispatchedAttempt run id).any fun number => id == t && number == n
  | .event event => there && !(settled event).any fun ended => ended.1 == t && ended.2 == n
  | .command _ | .hosted _ => there

variable {P : Execution → ClaimTable → Prop} {d : Digests} {execution : String}
  {out : List PendingMessage} {run : Execution} {x : Execution}

theorem rowAfter_of_ne {t : String} {m : WorkflowMessage} (h : m.stepId? ≠ some t) (n : UInt32)
    (there : Bool) : rowAfter run t n there m = there := by
  cases m with
  | hosted _ => rfl
  | command c =>
    cases c <;> simp_all [rowAfter, WorkflowMessage.stepId?]
  | event e =>
    cases e with
    | stepSkipped id _ =>
      have hid : ¬ id = t := by simpa [WorkflowMessage.stepId?, WorkflowEvent.stepId?] using h
      cases ha : dispatchedAttempt run id <;> simp [rowAfter, ha, hid]
    | _ => simp_all [rowAfter, settled, WorkflowMessage.stepId?, WorkflowEvent.stepId?]

theorem foldl_rowAfter_aboutStep (run : Execution) (t : String) (n : UInt32)
    (msgs : List WorkflowMessage) (there : Bool) :
    msgs.foldl (rowAfter run t n) there = (aboutStep t msgs).foldl (rowAfter run t n) there := by
  induction msgs generalizing there with
  | nil => rfl
  | cons m ms ih =>
    by_cases hm : m.stepId? = some t
    · rw [aboutStep_cons_of_eq hm, foldl_cons, foldl_cons, ih]
    · rw [aboutStep_cons_of_ne hm, foldl_cons, rowAfter_of_ne hm, ih]

@[simp] theorem key_dispatchRow (execution : String) (run : Execution) (outputs : List PendingMessage)
    (commandId stepId : String) (attempt : UInt32) (runtime : RuntimeKind) :
    (dispatchRow execution run outputs commandId stepId attempt runtime).key =
      ⟨execution, stepId, attempt⟩ := by
  unfold dispatchRow
  cases retryDelayOf outputs stepId attempt <;>
    cases (run.plan.step stepId).map PlanStep.runtime with
    | none => rfl
    | some runtime => cases runtime <;> rfl

theorem leaves_put (execution id t : String) (number n : UInt32) (row : AttemptRow) (there : Bool) :
    (if AttemptKey.mk execution id number = ⟨execution, t, n⟩ then
      (Write.put (AttemptKey.mk execution id number) row).leaves there else there) =
      (there || (id == t && number == n)) := by
  by_cases h : id = t ∧ number = n
  · obtain ⟨rfl, rfl⟩ := h
    simp [Write.leaves]
  · rw [if_neg (by simpa using h)]
    have hno : (id == t && number == n) = false := by simpa using h
    rw [hno, Bool.or_false]

theorem leaves_drop (execution id t : String) (number n : UInt32) (there : Bool) :
    (if AttemptKey.mk execution id number = ⟨execution, t, n⟩ then
      (Write.drop (β := AttemptRow) (AttemptKey.mk execution id number)).leaves there else there) =
      (there && !(id == t && number == n)) := by
  by_cases h : id = t ∧ number = n
  · obtain ⟨rfl, rfl⟩ := h
    simp [Write.leaves]
  · rw [if_neg (by simpa using h)]
    have hno : (id == t && number == n) = false := by simpa using h
    rw [hno, Bool.not_false, Bool.and_true]

theorem rowAfter_eq (execution : String) (run : Execution) (outputs : List PendingMessage)
    (t : String) (n : UInt32) (there : Bool) (m : PendingMessage) :
    rowAfter run t n there m.message =
      ((attemptRow execution run outputs m).map AttemptWrite.write).elim there fun w =>
        if w.key = ⟨execution, t, n⟩ then w.leaves there else there := by
  have hretire : ∀ id number, (there && !(id == t && number == n)) =
      ((some (AttemptWrite.retire ⟨execution, id, number⟩)).map AttemptWrite.write).elim there
        fun w => if w.key = ⟨execution, t, n⟩ then w.leaves there else there :=
    fun id number => (leaves_drop execution id t number n there).symm
  unfold attemptRow
  cases m.message with
  | hosted _ => rfl
  | command c =>
    cases c with
    | executeStep id number kind _ =>
      have hput := leaves_put execution id t number n
        (dispatchRow execution run outputs m.metadata.messageId id number kind) there
      simpa [rowAfter, AttemptWrite.write, Write.key] using hput.symm
    | _ => rfl
  | event e =>
    cases e with
    | inputRequested id number _ =>
      cases hd : dispatchedStep run id <;>
        simp [rowAfter, settled, hd, AttemptWrite.write, Write.leaves]
    | inputProvided id number _ _ =>
      cases hd : dispatchedStep run id with
      | true => simpa [rowAfter, hd] using hretire id number
      | false => simp [rowAfter, hd]
    | stepSkipped id _ =>
      cases ha : dispatchedAttempt run id with
      | none => simp [rowAfter, ha]
      | some number => simpa [rowAfter, ha] using hretire id number
    | stepCompleted id number _ _ => exact hretire id number
    | stepCacheHit id number _ _ => exact hretire id number
    | stepFailed id number _ => exact hretire id number
    | _ => simp [rowAfter, settled]

theorem isSome_append (execution : String) (run : Execution) (table : ClaimTable)
    (out : List PendingMessage) (t : String) (n : UInt32) :
    (table.append (attemptRows execution (.active run) out))[AttemptKey.mk execution t n]?.isSome =
      (aboutStep t (contents out)).foldl (rowAfter run t n)
        table[AttemptKey.mk execution t n]?.isSome := by
  rw [← foldl_rowAfter_aboutStep, contents, foldl_map]
  unfold ClaimTable.append attemptRows
  simp only [ExecutionState.isActive, map_filterMap]
  exact Write.isSome_applyAll_filterMap (fun there m => rowAfter_eq execution run out t n there m)
    out table

theorem stepId?_of_attemptRow {outputs : List PendingMessage} {m : PendingMessage}
    {w : AttemptWrite} (h : attemptRow execution run outputs m = some w) :
    m.message.stepId? = some w.write.key.stepId := by
  unfold attemptRow at h
  cases hm : m.message with
  | hosted _ => simp [hm] at h
  | command c =>
    cases c with
    | executeStep id number kind _ =>
      simp only [hm, some.injEq] at h
      subst h
      simp [AttemptWrite.write, Write.key, WorkflowMessage.stepId?]
    | _ => simp [hm] at h
  | event e =>
    cases e with
    | inputRequested id number _ =>
      simp only [hm, ite_none_right_eq_some, some.injEq] at h
      rw [← h.2]
      rfl
    | inputProvided id number _ _ =>
      simp only [hm, ite_none_right_eq_some, some.injEq] at h
      rw [← h.2]
      rfl
    | stepSkipped id _ =>
      simp only [hm, map_eq_some_iff] at h
      obtain ⟨number, -, rfl⟩ := h
      rfl
    | stepCompleted _ _ _ _ => simp only [hm, settled] at h; cases h; rfl
    | stepCacheHit _ _ _ _ => simp only [hm, settled] at h; cases h; rfl
    | stepFailed _ _ _ => simp only [hm, settled] at h; cases h; rfl
    | _ => simp [hm, settled] at h

theorem executionId_of_attemptRow {outputs : List PendingMessage} {m : PendingMessage}
    {w : AttemptWrite} (h : attemptRow execution run outputs m = some w) :
    w.write.key.executionId = execution := by
  unfold attemptRow at h
  split at h
  · cases h
    simp [AttemptWrite.write, Write.key]
  · simp only [ite_none_right_eq_some, some.injEq] at h
    rw [← h.2]
    rfl
  · simp only [ite_none_right_eq_some, some.injEq] at h
    rw [← h.2]
    rfl
  · obtain ⟨_, -, rfl⟩ := map_eq_some_iff.mp h
    rfl
  · obtain ⟨_, -, rfl⟩ := map_eq_some_iff.mp h
    rfl
  · cases h
  · cases h

theorem getElem?_append_of_foreign (after : ExecutionState) (table : ClaimTable)
    (out : List PendingMessage) {k : AttemptKey} (h : k.executionId ≠ execution) :
    (table.append (attemptRows execution after out))[k]? = table[k]? := by
  refine Write.getElem?_applyAll_of_forall_ne (fun w hw hkey => ?_) table
  obtain ⟨row, hrow, rfl⟩ := mem_map.mp hw
  cases after with
  | empty => cases hrow
  | active run =>
    obtain ⟨m, -, hsome⟩ := mem_filterMap.mp hrow
    exact h (hkey ▸ executionId_of_attemptRow hsome)

theorem getElem?_append_of_untouched (execution : String) (after : ExecutionState)
    (table : ClaimTable) {t : String} (h : aboutStep t (contents out) = []) (e : String)
    (n : UInt32) :
    (table.append (attemptRows execution after out))[AttemptKey.mk e t n]? =
      table[AttemptKey.mk e t n]? := by
  refine Write.getElem?_applyAll_of_forall_ne (fun w hw hkey => ?_) table
  obtain ⟨row, hrow, rfl⟩ := mem_map.mp hw
  cases after with
  | empty => cases hrow
  | active run =>
    obtain ⟨m, hm, hsome⟩ := mem_filterMap.mp hrow
    -- the message that wrote this row is about the row's step
    have habout : m.message.stepId? = some t := by
      rw [stepId?_of_attemptRow hsome, hkey]
    have : m.message ∈ aboutStep t (contents out) :=
      mem_aboutStep.mpr ⟨mem_map_of_mem hm, habout⟩
    rw [h] at this
    cases this

/-! ## What claimants and holders do -/

theorem isSome_claimAttempt (table : ClaimTable) (filter : ClaimFilter) (owner : String)
    (now : OffsetDateTime) (k : AttemptKey) :
    (table.claimAttempt filter owner now)[k]?.isSome = table[k]?.isSome := by
  unfold ClaimTable.claimAttempt
  split
  · rfl
  · rw [ExtTreeMap.getElem?_modify]
    split
    · rename_i h
      simp [Std.LawfulEqOrd.eq_of_compare h]
    · rfl

theorem isSome_heartbeat (table : ClaimTable) (key : AttemptKey) (owner : String)
    (now : OffsetDateTime) (k : AttemptKey) :
    (table.heartbeat key owner now)[k]?.isSome = table[k]?.isSome := by
  unfold ClaimTable.heartbeat
  rw [ExtTreeMap.getElem?_modify]
  split
  · rename_i h
    simp [Std.LawfulEqOrd.eq_of_compare h]
  · rfl

/-! ## Steps of the two together -/

/-- What one decision makes of a run `x` and of the rows of its steps. -/
structure Appended (execution : String) (x : Execution) (i : Delivery) (msgs : List WorkflowMessage)
    (before after : ClaimTable) : Prop where
  wellFormed : x.WellFormed
  moves : ∀ t s, x.step t = some s → Move x i.now i.input t s (aboutStep t msgs)
  rows : ∀ t n, after[AttemptKey.mk execution t n]?.isSome =
    (aboutStep t msgs).foldl (rowAfter (x.record msgs) t n)
      before[AttemptKey.mk execution t n]?.isSome
  frame : ∀ t, aboutStep t msgs = [] → ∀ e n,
    after[AttemptKey.mk e t n]? = before[AttemptKey.mk e t n]?
  foreign : ∀ k : AttemptKey, k.executionId ≠ execution → after[k]? = before[k]?

theorem appended_of_decided {i : Delivery} {table : ClaimTable} (hx : x.WellFormed)
    (h : Decided d x i.now i.input (contents out)) :
    Appended execution x i (contents out) table
      (table.append (attemptRows execution (.active (x.record (contents out))) out)) :=
  ⟨hx, fun _ _ hs => move_of_decided hx h hs, fun t n => isSome_append execution _ table out t n,
    fun _ hnil _ _ => getElem?_append_of_untouched execution _ table hnil _ _,
    fun _ hk => getElem?_append_of_foreign _ table out hk⟩

theorem appended_of_opens {i : Delivery} {table : ClaimTable} (h : Opens i.input x)
    (hout : contents out = openingFacts x ++ dispatchMessages d x i.now) :
    Appended execution x i (dispatchMessages d x i.now) table
      (table.append (attemptRows execution (.active (x.record (dispatchMessages d x i.now))) out)) := by
  have habout : ∀ t, aboutStep t (contents out) = aboutStep t (dispatchMessages d x i.now) := by
    intro t
    rw [hout, aboutStep_append]
    rfl
  refine ⟨wellFormed_of_opens h, fun _ _ hs => move_of_opens h hs, fun t n => ?_,
    fun t hnil _ _ => ?_, fun _ hk => getElem?_append_of_foreign _ table out hk⟩
  · rw [← habout]
    exact isSome_append execution _ table out t n
  · rw [← habout] at hnil
    exact getElem?_append_of_untouched execution _ table hnil _ _

/-- What a property of claimed runs says of a state: before the run there are no rows. -/
def ClaimedRun.Holds (P : Execution → ClaimTable → Prop) (state : ClaimedRun) : Prop :=
  match state.run with
  | .empty => ∀ k : AttemptKey, state.claims[k]?.isSome = false
  | .active x => x.WellFormed ∧ P x state.claims

theorem ClaimedRun.holds_active {state : ClaimedRun} (hx : state.run = .active x) :
    state.Holds P ↔ x.WellFormed ∧ P x state.claims := by
  unfold ClaimedRun.Holds
  rw [hx]

theorem ClaimedRun.holds_empty {state : ClaimedRun} (hx : state.run = .empty) :
    state.Holds P ↔ ∀ k : AttemptKey, state.claims[k]?.isSome = false := by
  unfold ClaimedRun.Holds
  rw [hx]

/-- **Every step of a claimed run** opens it, decides, or moves no row in or out. -/
theorem claim_step_cases {before after : ClaimedRun} {input : ClaimedInput}
    (hbefore : before.Holds P)
    (h : (claimMachine d execution).step before input = some (out, after)) :
    (∃ i x, input = .deliver i ∧ before.run = .empty ∧ Opens i.input x ∧
        after.run = .active (x.record (dispatchMessages d x i.now)) ∧
        Appended execution x i (dispatchMessages d x i.now) before.claims after.claims) ∨
      (∃ i x msgs, input = .deliver i ∧ before.run = .active x ∧ P x before.claims ∧
        Decided d x i.now i.input msgs ∧ after.run = .active (x.record msgs) ∧
        Appended execution x i msgs before.claims after.claims) ∨
      ((∀ i, input ≠ .deliver i) ∧ after.run = before.run ∧
        ∀ k : AttemptKey, after.claims[k]?.isSome = before.claims[k]?.isSome) := by
  cases input with
  | claim filter owner now =>
    cases h
    exact Or.inr (Or.inr ⟨fun _ => ClaimedInput.noConfusion, rfl, isSome_claimAttempt _ filter owner now⟩)
  | heartbeat key owner now =>
    cases h
    exact Or.inr (Or.inr ⟨fun _ => ClaimedInput.noConfusion, rfl, isSome_heartbeat _ key owner now⟩)
  | deliver i =>
    obtain ⟨⟨out', state'⟩, hstep, heq⟩ := map_eq_some_iff.mp h
    cases heq
    rcases step_cases hstep with ⟨x, hrun, hopens, hout, rfl⟩ | ⟨x, hrun, hdecided, rfl⟩
    · exact Or.inl ⟨i, x, rfl, hrun, hopens, rfl, appended_of_opens hopens hout⟩
    · obtain ⟨hx, hP⟩ := (ClaimedRun.holds_active hrun).mp hbefore
      exact Or.inr (Or.inl ⟨i, x, _, rfl, hrun, hP, hdecided, rfl, appended_of_decided hx hdecided⟩)

/-- **Run rule** for claimed runs: what opening establishes, every admitted decision
keeps, and no claim or heartbeat disturbs. -/
theorem claim_run_rule
    (Admits : ClaimedRun → ClaimedInput → Prop)
    (hopen : ∀ i x before after, (∀ k : AttemptKey, before[k]?.isSome = false) →
      Opens i.input x → Appended execution x i (dispatchMessages d x i.now) before after →
      P (x.record (dispatchMessages d x i.now)) after)
    (hdecide : ∀ i x msgs before after, P x before → Admits ⟨.active x, before⟩ (.deliver i) →
      Decided d x i.now i.input msgs → Appended execution x i msgs before after →
      P (x.record msgs) after)
    (hkeep : ∀ x before after, P x before →
      (∀ k : AttemptKey, after[k]?.isSome = before[k]?.isSome) → P x after)
    {is : List ClaimedInput}
    (hadm : ∀ st ∈ (claimMachine d execution).run .start is, Admits st.before st.input) :
    ∀ st ∈ (claimMachine d execution).run .start is, st.before.Holds P ∧ st.after.Holds P := by
  refine Machine.inv_of_mem_run (ClaimedRun.Holds P) Admits ?_ ?_ hadm
  · intro before input out after hbefore hadmit hstep
    rcases claim_step_cases hbefore hstep with ⟨i, x, rfl, hrun, hopens, hafter, happ⟩ |
      ⟨i, x, msgs, rfl, hrun, hP, hdecided, hafter, happ⟩ | ⟨-, hrun, hrows⟩
    · have hnone := (ClaimedRun.holds_empty hrun).mp hbefore
      rw [ClaimedRun.holds_active hafter]
      exact ⟨wellFormed_record happ.wellFormed _, hopen i x _ _ hnone hopens happ⟩
    · obtain ⟨run, claims⟩ := before
      cases hrun
      rw [ClaimedRun.holds_active hafter]
      exact ⟨wellFormed_record happ.wellFormed _, hdecide i x msgs _ _ hP hadmit hdecided happ⟩
    · unfold ClaimedRun.Holds at hbefore ⊢
      rw [hrun]
      cases hb : before.run with
      | empty =>
        rw [hb] at hbefore
        exact fun k => (hrows k).trans (hbefore k)
      | active x =>
        rw [hb] at hbefore
        exact ⟨hbefore.1, hkeep x _ _ hbefore.2 hrows⟩
  · intro k
    simp [ClaimedRun.start]

/-! ## Claimed runs to look at -/

def ClaimedInput.delivery? : ClaimedInput → Option Delivery
  | .deliver delivery => some delivery
  | _ => none

theorem forall_delivery_of_all {steps : List (Step ClaimedRun ClaimedInput PendingMessage)}
    {f : ClaimTable → Execution → WorkflowMessage → Bool}
    (h : steps.all (fun st => st.before.run.isActive.all fun x =>
      st.input.delivery?.all fun i => f st.before.claims x i.input) = true) :
    ∀ st ∈ steps, ∀ x i, st.before.run = .active x → st.input = .deliver i →
      f st.before.claims x i.input = true := by
  intro st hst x i hrun hinput
  have hone := all_eq_true.mp h st hst
  rw [hrun, hinput] at hone
  exact hone

end Aiwatcher.Engine
