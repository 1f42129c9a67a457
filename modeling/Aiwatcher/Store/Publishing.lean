import Aiwatcher.Library.Drain
import Aiwatcher.Store.Handle
import Aiwatcher.Store.File
import Aiwatcher.Store.Memory

/-!
# Aiwatcher.Store.Publishing

Getting committed facts onto the event log (`outbox.rs`).  A pass reads a batch from the
head of the outbox, sends what it can decode and marks that; what it cannot decode it
leaves where it is.

So a batch of undecodable rows at the head is read again on every pass, and
`outbox_drains_iff` says when that happens to no outbox.
-/

namespace Aiwatcher.Store

open Library List

/-! ## One pass -/

/-- How many rows one pass drains. -/
def batchSize : Nat := 128

/-- What one pass did. -/
structure Published where
  sent : Nat
  undecodable : Nat
  deriving DecidableEq, Repr

/-- An envelope as it leaves: under the project of the store it was drained from. -/
structure Outgoing where
  envelope : EventEnvelope
  project : Option ProjectScope

/-- The project a scope names, if it is one. -/
def ExecutionScope.onTheLog : ExecutionScope → Option ProjectScope
  | .global => none
  | .project scope => some scope

section Passes

variable {σ : Type} [WorkflowStore σ] (decode : Value → Option EventEnvelope)
variable (binding : ScopeBinding)

/-- `publish_pending`: what it answers, what it put on the log and the store it leaves.
The sink says what it refuses a batch with, if it does. -/
def publishPending (sink : List Outgoing → Option String) (store : σ) :
    Except String Published × List Outgoing × σ :=
  let pending := WorkflowStore.pendingOutbox store binding batchSize
  if pending.isEmpty then (.ok ⟨0, 0⟩, [], store)
  else
    let project := binding.scope.onTheLog
    let envelopes := pending.filterMap fun row =>
      (decode row.payload).map fun envelope => (⟨envelope, project⟩ : Outgoing)
    let ids := (pending.filter fun row => (decode row.payload).isSome).map (·.messageId)
    let undecodable := pending.countP fun row => (decode row.payload).isNone
    if envelopes.isEmpty then (.ok ⟨0, undecodable⟩, [], store)
    else match sink envelopes with
      | some error => (.error s!"publishing execution facts: {error}", [], store)
      | none =>
        (.ok ⟨envelopes.length, undecodable⟩, envelopes,
          WorkflowStore.markPublished store binding ids)

/-- A sink that takes everything. -/
def takesAll : List Outgoing → Option String := fun _ => none

/-- `publish_pending`, a number of times: what is on the log by then and the store. -/
def publishTimes : Nat → σ → List Outgoing × σ
  | 0, store => ([], store)
  | n + 1, store =>
    let pass := publishPending decode binding takesAll store
    let rest := publishTimes n pass.2.2
    (pass.2.1 ++ rest.1, rest.2)

/-- The outbox as a queue: rows go by their ids, and can be taken if they decode. -/
def outboxDrain : Drain OutboxMessage String where
  key := OutboxMessage.messageId
  takes row := (decode row.payload).isSome
  size := batchSize

/-- Every decodable row is published and marked: its id is pending no more, and of the
rows under one id the first one's envelope is on the log. -/
def PublishesAll (store : σ) : Prop :=
  ∀ limit front row back envelope,
    WorkflowStore.pendingOutbox store binding limit = front ++ row :: back →
    decode row.payload = some envelope →
    ∃ n, (∀ later left, left ∈
        WorkflowStore.pendingOutbox (publishTimes decode binding n store).2 binding later →
          left.messageId ≠ row.messageId) ∧
      (row.messageId ∉ (outboxDrain decode).takeable front →
        ⟨envelope, binding.scope.onTheLog⟩ ∈ (publishTimes decode binding n store).1)

/-- In front of each decodable row that is the first of its id are fewer than a batch of
rows which do not decode and whose ids no decodable row in front has. -/
def NothingBlocks (store : σ) : Prop :=
  ∀ limit, (outboxDrain decode).Unblocked (WorkflowStore.pendingOutbox store binding limit)

end Passes

/-! ## A store whose outbox is a queue -/

section Queues

variable {σ : Type} [WorkflowStore σ] {binding : ScopeBinding} {decode : Value → Option EventEnvelope}

/-- What is pending is read from the head, and marking drops it by its ids. -/
structure Queued (binding : ScopeBinding) (pending : σ → List OutboxMessage) : Prop where
  read : ∀ store limit,
    WorkflowStore.pendingOutbox store binding limit = (pending store).take limit
  marked : ∀ store ids, pending (WorkflowStore.markPublished store binding ids) =
    (pending store).filter fun row => !ids.contains row.messageId

/-- The envelope of a row that decodes, as it leaves. -/
def outgoing (decode : Value → Option EventEnvelope) (binding : ScopeBinding)
    (row : OutboxMessage) : Option Outgoing :=
  (decode row.payload).map fun envelope => ⟨envelope, binding.scope.onTheLog⟩

theorem filterMap_outgoing (rows : List OutboxMessage) :
    rows.filterMap (outgoing decode binding) =
      (rows.filter fun row => (decode row.payload).isSome).filterMap (outgoing decode binding) := by
  rw [filterMap_filter]
  refine filterMap_congr fun row _ => ?_
  cases h : decode row.payload <;> simp [outgoing, h]

theorem filterMap_outgoing_eq_nil {rows : List OutboxMessage} :
    rows.filterMap (outgoing decode binding) = [] ↔
      (rows.filter fun row => (decode row.payload).isSome) = [] := by
  simp [filterMap_eq_nil_iff, filter_eq_nil_iff, outgoing]

variable {pending : σ → List OutboxMessage}

section

variable (h : Queued binding pending)

include h

/-- **One pass** sends what the queue's pass takes and leaves what it leaves. -/
theorem Queued.publishPending (decode : Value → Option EventEnvelope) (store : σ) :
    (publishPending decode binding takesAll store).2.1 =
        ((outboxDrain decode).taken (pending store)).filterMap (outgoing decode binding) ∧
      pending (publishPending decode binding takesAll store).2.2 =
        (outboxDrain decode).left (pending store) := by
  have htaken : (outboxDrain decode).taken (pending store) =
      ((pending store).take batchSize).filter fun row => (decode row.payload).isSome := rfl
  have hkept : (outboxDrain decode).taken (pending store) = [] →
      (outboxDrain decode).left (pending store) = pending store := fun hnone => by
    simp [Drain.left, hnone]
  unfold Store.publishPending
  simp only [h.read, takesAll]
  split
  · rename_i hempty
    have hnone : (outboxDrain decode).taken (pending store) = [] := by
      rw [htaken, List.isEmpty_iff.mp hempty, filter_nil]
    simp [hnone, hkept hnone]
  · split
    · rename_i hempty
      have hnone : (outboxDrain decode).taken (pending store) = [] := by
        rw [htaken]
        exact filterMap_outgoing_eq_nil.mp (List.isEmpty_iff.mp hempty)
      simp [hnone, hkept hnone]
    · refine ⟨?_, ?_⟩
      · rw [htaken, ← filterMap_outgoing]
        rfl
      · rw [h.marked]
        rfl

/-- **Any number of passes** send and leave what those of the queue do. -/
theorem Queued.publishTimes (decode : Value → Option EventEnvelope) (n : Nat) (store : σ) :
    (publishTimes decode binding n store).1 =
        ((outboxDrain decode).drained n (pending store)).filterMap (outgoing decode binding) ∧
      pending (publishTimes decode binding n store).2 =
        (outboxDrain decode).after n (pending store) := by
  induction n generalizing store with
  | zero => exact ⟨rfl, rfl⟩
  | succ n ih =>
    obtain ⟨hsent, hleft⟩ := h.publishPending decode store
    obtain ⟨hrest, hafter⟩ := ih (Store.publishPending decode binding takesAll store).2.2
    rw [hleft] at hrest hafter
    rw [Store.publishTimes, Drain.drained, filterMap_append]
    exact ⟨by rw [hsent, hrest], hafter⟩

theorem Queued.forall_left {n : Nat} {store : σ} {id : String} :
    (∀ later left, left ∈
        WorkflowStore.pendingOutbox (Store.publishTimes decode binding n store).2 binding later →
          left.messageId ≠ id) ↔
      ∀ left ∈ (outboxDrain decode).after n (pending store), left.messageId ≠ id := by
  have hafter := (h.publishTimes decode n store).2
  constructor
  · intro hleft left hmem
    exact hleft _ left (by rwa [h.read, hafter, take_length])
  · intro hleft later left hmem
    rw [h.read, hafter] at hmem
    exact hleft left (mem_of_mem_take hmem)

end

theorem outgoing_of_decode {row : OutboxMessage} {envelope : EventEnvelope}
    (h : decode row.payload = some envelope) :
    outgoing decode binding row = some ⟨envelope, binding.scope.onTheLog⟩ := by
  simp [outgoing, h]

/-- **Publishing everything**, of a store whose outbox is a queue, comes to nothing being
in the way of any row. -/
theorem Queued.publishesAll_iff (h : Queued binding pending) (store : σ) :
    PublishesAll decode binding store ↔ NothingBlocks decode binding store := by
  constructor
  · intro hall limit
    rw [h.read]
    refine Drain.Unblocked.take (Drain.drained_iff.mp fun row hrow htakes => ?_) limit
    obtain ⟨front, back, hqueue⟩ := append_of_mem hrow
    obtain ⟨envelope, hdecode⟩ := Option.isSome_iff_exists.mp htakes
    obtain ⟨n, hleft, -⟩ := hall (pending store).length front row back envelope
      (by rw [h.read, take_length, hqueue]) hdecode
    have hgone := h.forall_left.mp hleft row
    refine ⟨n, ?_⟩
    by_contra hnot
    rw [Drain.after_eq, mem_filter] at hgone
    exact hgone ⟨hrow, by simpa using hnot⟩ rfl
  · intro hblocks limit front row back envelope hfound hdecode
    have htakes : (outboxDrain decode).takes row = true := Option.isSome_of_eq_some hdecode
    have hunblocked : (outboxDrain decode).Unblocked (pending store) := by
      have := hblocks (pending store).length
      rwa [h.read, take_length] at this
    rw [h.read] at hfound
    have hqueue : pending store = front ++ row :: (back ++ (pending store).drop limit) := by
      conv_lhs => rw [← take_append_drop limit (pending store), hfound]
      simp
    have hrow : row ∈ (pending store).take limit := by simp [hfound]
    obtain ⟨n, hn⟩ := Drain.drained_iff.mpr hunblocked row (mem_of_mem_take hrow) htakes
    refine ⟨n, h.forall_left.mpr fun left hmem hsame => ?_, fun hfirst => ?_⟩
    · rw [Drain.after_eq, mem_filter] at hmem
      have hkey : (outboxDrain decode).key left = (outboxDrain decode).key row := hsame
      simp only [hkey, contains_iff_mem.mpr hn] at hmem
      exact absurd hmem.2 (by simp)
    · rw [(h.publishTimes decode n store).1, mem_filterMap]
      exact ⟨row, Drain.drained_first hqueue htakes hfirst hn, outgoing_of_decode hdecode⟩

end Queues

/-! ## The adapters -/

/-- What a side of the file store has pending. -/
def Disk.pendingRows {β : Type} [StreamFile β] (binding : ScopeBinding) (disk : Disk β) :
    List OutboxMessage :=
  disk.outbox.filter fun row =>
    row.publishedAt.isNone && disk.admitsPartition binding row.partitionKey

/-- What a side of the store in memory has pending. -/
def Inner.pendingRows (binding : ScopeBinding) (inner : Inner) : List OutboxMessage :=
  inner.outbox.filter fun row =>
    row.publishedAt.isNone && inner.admitsPartition binding row.partitionKey

theorem Disk.queued {β : Type} [StreamFile β] (binding : ScopeBinding) :
    Queued binding (Disk.pendingRows (β := β) binding) where
  read _ _ := rfl
  marked disk ids := by
    change List.filter _ (List.filter _ _) = _
    rw [Disk.pendingRows, filter_filter, filter_filter]
    refine filter_congr fun row _ => ?_
    change (_ && disk.admitsPartition binding row.partitionKey && _) = _
    grind

theorem Inner.queued (binding : ScopeBinding) : Queued binding (Inner.pendingRows binding) where
  read _ _ := rfl
  marked inner ids := by
    change List.filter _ (List.filter _ _) = _
    rw [Inner.pendingRows, filter_filter, filter_filter]
    refine filter_congr fun row hrow => ?_
    change (_ && inner.admitsPartition binding row.partitionKey && _) = _
    -- an id is dropped for the sake of some row of this side, and this row is one
    simp
    grind

/-- **When the outbox is never blocked**: repeated passes publish and mark every decodable
row, of a store on disk and of one in memory, exactly if fewer than a batch of rows that
stay stand in front of each. -/
theorem outbox_drains_iff {β : Type} [StreamFile β] (decode : Value → Option EventEnvelope)
    (binding : ScopeBinding) :
    (∀ disk : Disk β, PublishesAll decode binding disk ↔ NothingBlocks decode binding disk) ∧
      ∀ inner : Inner, PublishesAll decode binding inner ↔ NothingBlocks decode binding inner :=
  ⟨(Disk.queued binding).publishesAll_iff, (Inner.queued binding).publishesAll_iff⟩

/-- A build that reads envelopes out of objects only. -/
def readsObjects : Value → Option EventEnvelope
  | .object entries => some ⟨none, "execution.started", OffsetDateTime.unixEpoch, .object entries⟩
  | _ => none

/-- A row of one run, under an id. -/
def rowOf (messageId : String) (payload : Value) : OutboxMessage :=
  ⟨messageId, "execution.started", "workflow:run", payload, OffsetDateTime.unixEpoch, 0, none, none⟩

/-- As many rows of a newer build as a pass reads. -/
def newerRows : List OutboxMessage :=
  (List.range batchSize).map fun n => rowOf s!"newer-{n}" .null

/-- A fact behind a batch of rows of a newer build. -/
def crowded : Inner := { Inner.new with outbox := newerRows ++ [rowOf "fact" (.object [])] }

theorem pendingRows_crowded : crowded.pendingRows .global = crowded.outbox := by
  have hadmits : crowded.admitsPartition .global "workflow:run" = true := by decide
  refine filter_eq_self.mpr fun row hrow => ?_
  have hkey : row.partitionKey = "workflow:run" ∧ row.publishedAt = none := by
    simp only [crowded, newerRows, mem_append, mem_map, mem_singleton] at hrow
    cases hrow with
    | inl hrow => obtain ⟨n, -, rfl⟩ := hrow; exact ⟨rfl, rfl⟩
    | inr hrow => subst hrow; exact ⟨rfl, rfl⟩
  simp [hkey, hadmits]

/-- The fact is never published: every pass reads the same batch. -/
theorem crowded_publishes_nothing : ¬ PublishesAll readsObjects .global crowded := by
  rw [(Inner.queued .global).publishesAll_iff]
  intro hblocks
  have hnone : ∀ row ∈ newerRows, (outboxDrain readsObjects).takes row = false := by
    simp [newerRows, rowOf, outboxDrain, readsObjects]
  have htakeable : (outboxDrain readsObjects).takeable newerRows = [] := by
    simp [Drain.takeable, List.filter_eq_nil_iff.mpr (by simpa using hnone)]
  have hway : (outboxDrain readsObjects).inTheWay newerRows = newerRows := by
    rw [Drain.inTheWay, htakeable]
    exact List.filter_eq_self.mpr fun row hrow => by simp [hnone row hrow]
  have hfew := hblocks (batchSize + 1) newerRows (rowOf "fact" (.object [])) []
    (by rw [(Inner.queued .global).read, pendingRows_crowded]; rfl) rfl (by simp [htakeable])
  rw [hway] at hfew
  simp [newerRows, outboxDrain] at hfew

end Aiwatcher.Store
