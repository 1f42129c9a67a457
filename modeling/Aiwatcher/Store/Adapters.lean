import Aiwatcher.Store.Forgotten
import Aiwatcher.Store.Mirror

/-!
# Aiwatcher.Store.Adapters

The two adapters under one list of calls.  They part where one of them looks further
than the other: the file store's inbox is every message id of the stream and its outbox
holds an id once, the memory store's inbox is the ids of inputs and its outbox is a list;
a publish drops every row under an id from memory and its own side's rows from the file;
and a sweep with room for some only drops whichever it meets first.

`Agreed` is what keeps a call away from that, and in a run of such calls the answers are
the same at every step (`adapters_agree_when`).
-/

namespace Aiwatcher.Store

open Engine Library List Table Std

/-! ## One call of both -/

/-- One call of a store.  A sweep meets the projections in an order of the adapter's own:
the operation carries the memory store's, `visits` is the file store's. -/
structure Asked where
  binding : ScopeBinding
  op : Operation
  visits : List String

/-- What the file store makes of an operation. -/
def Disk.answer {β : Type} [StreamFile β] (size : WorkflowMessage → Nat) (disk : Disk β)
    (binding : ScopeBinding) (visits : List String) : (op : Operation) → op.Reply × Disk β
  | .prune before limit _ => disk.prune binding before limit visits
  | op => op.perform size disk binding

/-- The memory store, answering one call after the other. -/
def memoryAdapter (size : WorkflowMessage → Nat) :
    Machine Inner Asked (Σ op : Operation, op.Reply) where
  step inner asked :=
    let (reply, after) := asked.op.perform size inner asked.binding
    some ([⟨asked.op, reply⟩], after)

/-- The file store, answering one call after the other. -/
def fileAdapter (β : Type) [StreamFile β] (size : WorkflowMessage → Nat) :
    Machine (Disk β) Asked (Σ op : Operation, op.Reply) where
  step disk asked :=
    let (reply, after) := disk.answer size asked.binding asked.visits asked.op
    some ([⟨asked.op, reply⟩], after)

/-! ## What keeps them together -/

namespace Inner

/-- Whether an append gets as far as the inbox. -/
def looksIn (inner : Inner) (size : WorkflowMessage → Nat) (binding : ScopeBinding)
    (execution : String) (request : AppendRequest) : Bool :=
  (request.checkPayloads size).isOk &&
    (binding.appending execution request.ownership (inner.ownerOf execution)
      ((inner.stream execution).length == 0)).isOk

/-- An append whose input is new has an id no message of the stream carries, and where it
is accepted, rows under ids the outbox does not hold. -/
structure NewIds (inner : Inner) (execution : String) (request : AppendRequest) : Prop where
  input : ∀ recorded ∈ inner.stream execution,
    recorded.metadata.messageId ≠ request.inputId
  rows : request.expectedVersion.check (inner.stream execution).length = .ok () →
    ∀ row ∈ request.outbox, ∀ held ∈ inner.outbox, held.messageId ≠ row.messageId

/-- The rows under one published id are all on one side. -/
def OneSided (inner : Inner) (binding : ScopeBinding) (ids : List String) : Prop :=
  ∀ row ∈ inner.outbox, ∀ other ∈ inner.outbox, row.messageId = other.messageId →
    row.messageId ∈ ids →
      inner.admitsPartition binding row.partitionKey = inner.admitsPartition binding other.partitionKey

/-- Two orders to meet the projections in, each under its own execution's id, that make no
difference to a sweep: they are one order, or the sweep has room for all it may forget. -/
structure SameSweep (inner : Inner) (binding : ScopeBinding) (before : OffsetDateTime)
    (limit : Nat) (visits others : List String) : Prop where
  named : ∀ (execution : String) (run : RunProjection),
    inner.projections[execution]? = some run → run.executionId = execution
  order : others.Perm visits
  room : others = visits ∨
    (visits.filter fun execution => inner.mayPrune binding before execution).length ≤ limit

/-- What keeps the two adapters together at one call. -/
def Agreed (size : WorkflowMessage → Nat) (inner : Inner) (asked : Asked) : Prop :=
  match asked.op with
  | .append execution request _ =>
    inner.looksIn size asked.binding execution request = true →
      inner.seenAt execution request.inputId = none → inner.NewIds execution request
  | .markPublished ids => inner.OneSided asked.binding ids
  | .prune before limit visits => inner.SameSweep asked.binding before limit visits asked.visits
  | _ => True

end Inner

/-! ## Appending -/

section Append

variable {β : Type} [StreamFile β] [LawfulStreamFile β] {disk : Disk β} {inner : Inner}
  {binding : ScopeBinding} {execution : String} {request : AppendRequest} {now : OffsetDateTime}

namespace Mirrors

theorem recover (h : Mirrors disk inner) (now : OffsetDateTime) : disk.recover now = disk :=
  Disk.recover_of_empty h.journal now

theorem reach (h : Mirrors disk inner) (execution : String) :
    Mirrors disk (inner.reach execution) :=
  { h with
    absent := fun e he => by rw [Inner.stream_reach]; exact h.absent e he
    whole := fun e file hfile => by rw [Inner.stream_reach]; exact h.whole e file hfile
    inbox := fun e id version hseen => by rw [Inner.stream_reach]; exact h.inbox e id version hseen }

end Mirrors

theorem messageWithId_eq_none {stream : List RecordedMessage} {id : String} :
    messageWithId stream id = none ↔ ∀ recorded ∈ stream, recorded.metadata.messageId ≠ id := by
  simp [messageWithId]

theorem lastActivity_append (stream : List RecordedMessage) (now : OffsetDateTime) (version : Nat)
    (message : PendingMessage) (messages : List PendingMessage) :
    lastActivity (stream ++ numbered now version (message :: messages)) = now := by
  have hlast : ∀ (version : Nat) (messages : List PendingMessage), ∀ message,
      ((numbered now version (message :: messages)).getLast?).map (·.recordedAt) = some now := by
    intro version messages
    induction messages generalizing version with
    | nil => intro message; rfl
    | cons next messages ih =>
      intro message
      rw [numbered, getLast?_cons_of_ne_nil (by simp [numbered])]
      exact ih (version + 1) next
  unfold lastActivity
  rw [getLast?_append, Option.map_or, hlast]
  rfl

theorem Mirrors.applyStream (h : Mirrors disk inner) (commit : PendingCommit)
    {first : RecordedMessage} {rest : List RecordedMessage} (hrecords : commit.records = first :: rest)
    (hnew : ∀ recorded ∈ inner.stream commit.execution,
      recorded.metadata.messageId ≠ first.metadata.messageId) :
    ∃ file : β, LawfulStreamFile.Whole file (inner.stream commit.execution) ∧
      (disk.applyStream commit now).streams = disk.streams.insert commit.execution
        (StreamFile.writeLines commit.records file, now) := by
  have hread := h.readStreamValid commit.execution
  have halready : disk.already commit = false := by
    unfold Disk.already
    rw [hrecords, h.readStream]
    simpa using hnew
  refine ⟨disk.openStream commit.execution, ?_, ?_⟩
  · unfold Disk.openStream
    rw [hread]
    cases hfile : disk.streams[commit.execution]? with
    | none =>
      have hempty : ¬ 0 < StreamFile.length (StreamFile.created : β) := fun hpos =>
        (LawfulStreamFile.length_pos LawfulStreamFile.whole_created).mp hpos rfl
      simpa [hempty, h.absent _ hfile] using LawfulStreamFile.whole_created
    | some file => simpa using (h.whole _ file hfile).1
  · unfold Disk.applyStream
    rw [halready]
    rfl

theorem messageWithId_append {stream : List RecordedMessage} {id : String} {version : Nat}
    (hfound : (messageWithId stream id).map (·.streamVersion) = some version)
    (more : List RecordedMessage) :
    (messageWithId (stream ++ more) id).map (·.streamVersion) = some version := by
  obtain ⟨recorded, hrecorded, hversion⟩ := Option.map_eq_some_iff.mp hfound
  unfold messageWithId at hrecorded ⊢
  rw [find?_append, hrecorded]
  exact congrArg some hversion

omit [LawfulStreamFile β] in
theorem streams_applyStream_journal (disk : Disk β) (commit : PendingCommit)
    (now : OffsetDateTime) :
    ((disk.journal commit now).applyStream commit now).streams =
      (disk.applyStream commit now).streams := by
  unfold Disk.applyStream
  cases halready : disk.already commit with
  | true =>
    have hjournal : (disk.journal commit now).already commit = true := halready
    rw [hjournal]
    rfl
  | false =>
    have hjournal : (disk.journal commit now).already commit = false := halready
    rw [hjournal]
    rfl

theorem Mirrors.commit (h : Mirrors disk inner) (establishing : Option ExecutionOwnership)
    (hids : ∀ recorded ∈ inner.stream execution, recorded.metadata.messageId ≠ request.inputId)
    (hrows : ∀ row ∈ request.outbox, ∀ held ∈ inner.outbox, held.messageId ≠ row.messageId)
    {commit : PendingCommit} (hcommit : commit = Disk.commitOf execution request
      (inner.stream execution).length now establishing) :
    Mirrors
      { (disk.journal commit now).apply commit now with
        commits := ((disk.journal commit now).apply commit now).commits.erase now.natAbs }
      (inner.commit execution establishing request now) := by
  obtain ⟨file, hwhole, hstreams⟩ : ∃ file : β,
      LawfulStreamFile.Whole file (inner.stream execution) ∧
        (disk.applyStream commit now).streams = disk.streams.insert execution
          (StreamFile.writeLines (numbered now (inner.stream execution).length request.messages)
            file, now) := by
    subst hcommit
    exact h.applyStream (Disk.commitOf execution request _ now establishing) rfl hids
  have hread : ∀ e, ((disk.journal commit now).apply commit now).streams[e]? =
      if execution = e then some (StreamFile.writeLines
        (numbered now (inner.stream execution).length request.messages) file, now)
      else disk.streams[e]? := fun e => by
    rw [Disk.streams_apply, streams_applyStream_journal, hstreams, Table.getElem?_insert]
  have hstream := inner.stream_commit execution establishing request now
  exact {
    absent := fun e he => by
      rw [hread] at he
      rw [hstream]
      split at he
      · cases he
      · rename_i hne
        rw [if_neg hne]
        exact h.absent e he
    whole := fun e file' hfile => by
      rw [hread] at hfile
      rw [hstream]
      split at hfile
      · rename_i heq
        cases hfile
        rw [if_pos heq]
        exact ⟨LawfulStreamFile.whole_writeLines _ hwhole, (lastActivity_append ..).symm⟩
      · rename_i hne
        rw [if_neg hne]
        exact h.whole e file' hfile
    inbox := fun e id version hversion => by
      rw [inner.seenAt_commit execution establishing request now] at hversion
      rw [hstream]
      split at hversion
      · rename_i heq
        obtain ⟨rfl, rfl⟩ := heq
        have hnone := messageWithId_eq_none.mpr hids
        unfold messageWithId at hnone ⊢
        rw [if_pos rfl, find?_append, hnone]
        simpa [numbered, AppendRequest.messages, AppendRequest.inputId] using hversion
      · have hfound := h.inbox e id version hversion
        split
        · rename_i heq
          exact messageWithId_append (heq ▸ hfound) _
        · exact hfound
    projections := by
      subst hcommit
      simp [Inner.commit, Disk.journal, Disk.commitOf, h.projections]
    outbox := by
      have hnew : Disk.newRows inner.outbox request.outbox = request.outbox := by
        unfold Disk.newRows
        rw [filter_eq_self]
        intro row hrow
        simpa using fun held hheld => hrows row hrow held hheld
      subst hcommit
      simp [Inner.commit, Disk.journal, Disk.commitOf, h.outbox, hnew]
    checkpoints := by
      subst hcommit
      simp [Inner.commit, Disk.journal, Disk.commitOf, h.checkpoints]
    attempts := by
      subst hcommit
      simp [Inner.commit, Disk.journal, Disk.commitOf, h.attempts]
    deciderLeases := by
      simp [Inner.commit, Disk.journal, h.deciderLeases]
    timers := by
      subst hcommit
      simp [Inner.commit, Disk.journal, Disk.commitOf, h.timers]
    ownership := by
      subst hcommit
      simp [Inner.commit, Disk.journal, Disk.commitOf, h.ownership]
    journal := by
      apply ExtTreeMap.ext_getElem?
      intro k
      rw [Disk.commits_apply, getElem?_erase]
      show (if now.natAbs = k then none else (disk.commits.insert now.natAbs commit)[k]?) = _
      rw [Table.getElem?_insert, h.journal]
      split <;> simp_all
    slots := fun file record => by
      simpa [Disk.readSlots, Disk.journal, Inner.commit] using h.slots file record
    slotKeys := fun file => by
      simpa [Disk.readSlots, Disk.journal] using h.slotKeys file
    keyed := h.keyed }

theorem Mirrors.append (h : Mirrors disk inner) {size : WorkflowMessage → Nat}
    (hagreed : inner.looksIn size binding execution request = true →
      inner.seenAt execution request.inputId = none → inner.NewIds execution request) :
    Together (disk.append binding size execution request now)
      (inner.append binding size execution request now) := by
  unfold Disk.append Inner.append
  cases hsize : request.checkPayloads size with
  | error refused => exact .of h
  | ok _ =>
    dsimp only
    rw [h.recover, Disk.accept, h.readStream, h.ownerOf]
    cases hscope : binding.appending execution request.ownership (inner.ownerOf execution)
        ((inner.stream execution).length == 0) with
    | error refused => exact .of (h.reach execution)
    | ok establishing =>
      have hlooks : inner.looksIn size binding execution request = true := by
        simp [Inner.looksIn, hsize, hscope, Except.isOk, Except.toBool]
      dsimp only
      cases hseen : inner.seenAt execution request.inputId with
      | some version =>
        obtain ⟨recorded, hfound, rfl⟩ := Option.map_eq_some_iff.mp
          (h.inbox execution request.inputId version hseen)
        unfold messageWithId at hfound
        rw [hfound]
        exact .of (h.reach execution)
      | none =>
        have hnew := hagreed hlooks hseen
        have hnone := messageWithId_eq_none.mpr hnew.input
        unfold messageWithId at hnone
        rw [hnone]
        cases hversion : request.expectedVersion.check (inner.stream execution).length with
        | error conflict => exact .of (h.reach execution)
        | ok _ =>
          exact .of (h.commit establishing hnew.input (hnew.rows hversion) rfl)

end Append

/-! ## Publishing and sweeping -/

section Sweep

variable {β : Type} [StreamFile β] [LawfulStreamFile β] {disk : Disk β} {inner : Inner}
  {binding : ScopeBinding}

section

variable (h : Mirrors disk inner)

include h

theorem Mirrors.markPublished {ids : List String} (hsided : inner.OneSided binding ids) :
    Mirrors (disk.markPublished binding ids) (inner.markPublished binding ids) := by
  refine { h with outbox := ?_ }
  simp only [Disk.markPublished, Inner.markPublished, h.outbox, h.admitsPartition]
  refine filter_congr fun row hrow => ?_
  congr 1
  rw [Bool.eq_iff_iff]
  simp only [Bool.and_eq_true, contains_iff_mem, mem_map, mem_filter]
  constructor
  · exact fun hdoomed => ⟨row, ⟨hrow, hdoomed⟩, rfl⟩
  · rintro ⟨other, ⟨hother, hid, hside⟩, hsame⟩
    exact ⟨hsame ▸ hid, (hsided other hother row hrow hsame hid) ▸ hside⟩

theorem Mirrors.mayPrune (before : OffsetDateTime) {run : RunProjection}
    (hrun : inner.projections[run.executionId]? = some run) :
    disk.mayPrune binding before run = inner.mayPrune binding before run.executionId := by
  unfold Disk.mayPrune Inner.mayPrune
  rw [hrun, h.outbox, h.admits, h.lastActivity_eq]
  simp only [Option.any_some]
  rw [Bool.and_comm (!(unpublished inner.outbox).contains (partitionOf run.executionId)),
    Bool.and_assoc, Bool.and_assoc, Bool.and_comm (!_)]

/-- What the file store meets of some projections is what the memory store meets of them. -/
theorem Mirrors.met (before : OffsetDateTime) {others : List String}
    (hnamed : ∀ (execution : String) (run : RunProjection),
      inner.projections[execution]? = some run → run.executionId = execution) :
    ((others.filterMap fun execution => disk.projections[execution]?).filter
      (disk.mayPrune binding before)).map (·.executionId) =
      others.filter fun execution => inner.mayPrune binding before execution := by
  induction others with
  | nil => rfl
  | cons execution others ih =>
    cases hrun : inner.projections[execution]? with
    | none =>
      have hskip : inner.mayPrune binding before execution = false := by
        simp [Inner.mayPrune, hrun]
      rw [filterMap_cons_none (by rw [h.projections, hrun]), ih,
        filter_cons_of_neg (by simp [hskip])]
    | some run =>
      obtain rfl := hnamed execution run hrun
      have hsame : disk.mayPrune binding before run =
          inner.mayPrune binding before run.executionId := h.mayPrune before hrun
      rw [filterMap_cons_some (by rw [h.projections, hrun])]
      cases hmay : inner.mayPrune binding before run.executionId with
      | true =>
        rw [filter_cons_of_pos (by rw [hsame, hmay]), filter_cons_of_pos hmay, map_cons, ih]
      | false =>
        rw [filter_cons_of_neg (by simp [hsame, hmay]), filter_cons_of_neg (by simp [hmay]), ih]

/-- What a sweep forgets, met in the file store's order or in the memory store's. -/
theorem Mirrors.doomed {before : OffsetDateTime} {limit : Nat} {visits others : List String}
    (hsame : inner.SameSweep binding before limit visits others) :
    ((disk.doomed binding before limit others).map (·.executionId)).Perm
      (inner.doomed binding before limit visits) := by
  unfold Disk.doomed Inner.doomed
  rw [map_take, h.met before hsame.named]
  rcases hsame.room with rfl | hroom
  · exact .rfl
  · have hperm := hsame.order.filter fun execution => inner.mayPrune binding before execution
    have hroom' := hperm.length_eq ▸ hroom
    rwa [take_of_length_le hroom, take_of_length_le hroom']

end

theorem stream_forget (inner : Inner) (gone : List String) (e : String) :
    (inner.forget gone).stream e = if e ∈ gone then [] else inner.stream e := by
  unfold Inner.stream Inner.forget
  dsimp only
  rw [getElem?_dropAll]
  split <;> rfl

theorem seenAt_forget (inner : Inner) (gone : List String) (e id : String) :
    (inner.forget gone).seenAt e id = if e ∈ gone then none else inner.seenAt e id := by
  unfold Inner.seenAt Inner.forget
  dsimp only
  rw [getElem?_dropAll]
  split <;> rfl

theorem dropAll_congr {α : Type} (table : BTreeMap String α) {keys others : List String}
    (h : ∀ key, key ∈ keys ↔ key ∈ others) :
    Table.dropAll table keys = Table.dropAll table others := by
  apply ExtTreeMap.ext_getElem?
  intro key
  simp only [getElem?_dropAll, h]

theorem Mirrors.forget (h : Mirrors disk inner) {gone others : List String}
    (hsame : ∀ e, e ∈ others ↔ e ∈ gone) : Mirrors (disk.forget others) (inner.forget gone) := by
  have hstreams : ∀ e, (disk.forget others).streams[e]? =
      if e ∈ gone then none else disk.streams[e]? := fun e => by
    show (Table.dropAll disk.streams others)[e]? = _
    rw [getElem?_dropAll]
    simp only [hsame]
  have hcontains : ∀ e, others.contains e = gone.contains e := fun e => by
    rw [Bool.eq_iff_iff]
    simpa using hsame e
  exact { h with
    absent := fun e he => by
      rw [hstreams] at he
      rw [stream_forget]
      split
      · rfl
      · rename_i hkept
        rw [if_neg hkept] at he
        exact h.absent e he
    whole := fun e file hfile => by
      rw [hstreams] at hfile
      rw [stream_forget]
      split at hfile
      · cases hfile
      · rename_i hkept
        rw [if_neg hkept]
        exact h.whole e file hfile
    inbox := fun e id version hversion => by
      rw [seenAt_forget] at hversion
      rw [stream_forget]
      split at hversion
      · cases hversion
      · rename_i hkept
        rw [if_neg hkept]
        exact h.inbox e id version hversion
    projections := by
      show Table.dropAll disk.projections others = Table.dropAll inner.projections gone
      rw [h.projections, dropAll_congr inner.projections hsame]
    attempts := by
      show disk.attempts.filter _ = inner.attempts.filter _
      simp only [h.attempts, hcontains]
    ownership := by
      show Table.dropAll disk.ownership others = Table.dropAll inner.ownership gone
      rw [h.ownership, dropAll_congr inner.ownership hsame] }

theorem Mirrors.prune (h : Mirrors disk inner) {before : OffsetDateTime} {limit : Nat}
    {visits others : List String} (hsame : inner.SameSweep binding before limit visits others) :
    Together (disk.prune binding before limit others) (inner.prune binding before limit visits) := by
  have hperm := h.doomed hsame
  have hforget := h.forget fun _ => hperm.mem_iff
  unfold Disk.prune Inner.prune
  refine ⟨?_, hforget⟩
  dsimp only
  rw [hperm.length_eq, h.attempts, hforget.attempts]

end Sweep

/-! ## A whole run -/

theorem Mirrors.answer {β : Type} [StreamFile β] [LawfulStreamFile β] {disk : Disk β}
    {inner : Inner} (h : Mirrors disk inner) {size : WorkflowMessage → Nat} {binding : ScopeBinding}
    {op : Operation} {visits : List String} (hagreed : inner.Agreed size ⟨binding, op, visits⟩) :
    Together (disk.answer size binding visits op) (op.perform size inner binding) := by
  cases op with
  | ownership execution =>
    have hread : disk.ownershipRecord binding execution =
        inner.ownershipRecord binding execution := by
      simp only [Disk.ownershipRecord, Inner.ownershipRecord, h.about, h.ownerOf]
    exact ⟨hread, h⟩
  | load execution =>
    have hread : disk.load binding execution = inner.load binding execution := by
      simp only [Disk.load, Inner.load, h.about, h.readStream]
    exact ⟨hread, h⟩
  | loadPage execution after limit =>
    have hread : disk.loadPage binding execution after limit =
        inner.loadPage binding execution after limit := by
      simp only [Disk.loadPage, Inner.loadPage, h.about, h.readStream]
    exact ⟨hread, h⟩
  | dueTimers now limit =>
    have hread : disk.dueTimers binding now limit = inner.dueTimers binding now limit := by
      simp only [Disk.dueTimers, Inner.dueTimers, h.timers, h.admits]
    exact ⟨hread, h⟩
  | timersOf execution =>
    have hread : disk.timersOf binding execution = inner.timersOf binding execution := by
      simp only [Disk.timersOf, Inner.timersOf, h.about, h.timers]
    exact ⟨hread, h⟩
  | recordedOutcome key =>
    have hread : disk.recordedOutcome binding key = inner.recordedOutcome binding key := by
      simp only [Disk.recordedOutcome, Inner.recordedOutcome, h.about, h.readStream]
    exact ⟨hread, h⟩
  | takeDeciderLease execution holder now => exact h.takeDeciderLease execution holder now
  | releaseDeciderLease execution holder now => exact h.releaseDeciderLease execution holder now
  | deciderLease execution =>
    have hread : disk.deciderLease binding execution = inner.deciderLease binding execution := by
      simp only [Disk.deciderLease, Inner.deciderLease, h.about, h.deciderLeases]
    exact ⟨hread, h⟩
  | append execution request now => exact h.append hagreed
  | projection execution =>
    have hread : disk.projection binding execution = inner.projection binding execution := by
      simp only [Disk.projection, Inner.projection, h.about, h.projections]
    exact ⟨hread, h⟩
  | pendingOutbox limit =>
    have hread : disk.pendingOutbox binding limit = inner.pendingOutbox binding limit := by
      simp only [Disk.pendingOutbox, Inner.pendingOutbox, h.outbox, h.admitsPartition]
    exact ⟨hread, h⟩
  | markPublished ids => exact ⟨rfl, h.markPublished hagreed⟩
  | admitSlot request => exact h.admitSlot request
  | settleSlot key owner settlement now => exact h.settleSlot key owner settlement now
  | recentSlots kind name limit =>
    have hread : disk.recentSlots binding kind name limit =
        inner.recentSlots binding kind name limit := by
      simp only [Disk.recentSlots, Inner.recentSlots, h.newestFirst_slots]
    exact ⟨hread, h⟩
  | projectScopes limit =>
    have hread : disk.projectScopes binding limit = inner.projectScopes binding limit := by
      simp only [Disk.projectScopes, Inner.projectScopes, h.ownership]
    exact ⟨hread, h⟩
  | checkpoint processor =>
    have hread : disk.checkpoint binding processor = inner.checkpoint binding processor := by
      simp only [Disk.checkpoint, Inner.checkpoint, h.checkpoints]
    exact ⟨hread, h⟩
  | claimAttempt filter owner now => exact h.claimAttempt filter owner now
  | heartbeat key owner now => exact h.heartbeat key owner now
  | attempt key =>
    have hread : disk.attempt binding key = inner.attempt binding key := by
      simp only [Disk.attempt, Inner.attempt, h.about, h.attempts]
    exact ⟨hread, h⟩
  | unclaimedAttempts now =>
    have hread : disk.unclaimedAttempts binding now = inner.unclaimedAttempts binding now := by
      simp only [Disk.unclaimedAttempts, Inner.unclaimedAttempts, h.mine]
    exact ⟨hread, h⟩
  | claimableAttempts runtime now limit =>
    have hread : disk.claimableAttempts binding runtime now limit =
        inner.claimableAttempts binding runtime now limit := by
      simp only [Disk.claimableAttempts, Inner.claimableAttempts, h.mine]
    exact ⟨hread, h⟩
  | advanceCheckpoint processor cursor => exact h.advanceCheckpoint processor cursor
  | prune before limit visits => exact h.prune hagreed

/-- **Interchangeable**: in every run whose calls keep the two together, they answer the
same at every step. -/
theorem adapters_agree_when (β : Type) [StreamFile β] [LawfulStreamFile β]
    (size : WorkflowMessage → Nat) (asked : List Asked)
    (hagreed : ∀ st ∈ (memoryAdapter size).run Inner.new asked, st.before.Agreed size st.input) :
    (fileAdapter β size).emitted Disk.new asked = (memoryAdapter size).emitted Inner.new asked := by
  refine Machine.emitted_lockstep (fun inner disk => Mirrors disk inner) (Inner.Agreed size)
    (fun _ _ _ _ hnone => by cases hnone) ?_ Mirrors.new hagreed
  intro inner disk call out inner' h hcall hstep
  obtain ⟨hreply, hafter⟩ := h.answer hcall
  cases hstep
  have htold := congrArg (fun reply : call.op.Reply =>
    some ([(⟨call.op, reply⟩ : Σ op : Operation, op.Reply)],
      (disk.answer size call.binding call.visits call.op).2)) hreply
  exact ⟨_, htold, hafter⟩

/-- A run is started and worked on, and a slot of its definition taken and settled. -/
def askedOfBoth : List Asked :=
  let key : SlotKey := ⟨.workflow, "nightly", 0⟩
  ([.append "run" (appendBehind [] (startOf (planOf [workerStep "work"] [])) "start") 0,
    .claimAttempt ⟨none, [.pythonTask], [], []⟩ "worker" 1, .heartbeat ⟨"run", "work", 1⟩ "worker" 2,
    .admitSlot ⟨key, "replica", .skip, 3⟩, .settleSlot key "replica" (.started "run") 4,
    .recentSlots .workflow "nightly" 10, .dueTimers 0 10, .load "run"] : List Operation).map
      fun op => ⟨.global, op, []⟩

theorem askedOfBoth_agree :
    (fileAdapter (List RecordedMessage) fun _ => 0).emitted Disk.new askedOfBoth =
      (memoryAdapter fun _ => 0).emitted Inner.new askedOfBoth := by
  refine adapters_agree_when (List RecordedMessage) (fun _ => 0) askedOfBoth ?_
  rw [askedOfBoth, List.map_cons, Machine.run_cons_some rfl, List.forall_mem_cons]
  refine ⟨fun _ _ => ⟨by simp [Inner.stream, Inner.new], by simp [Inner.new]⟩, ?_⟩
  intro st hst
  have hmem := Machine.input_mem_of_mem_run hst
  simp only [List.map_cons, List.map_nil, List.mem_cons, List.not_mem_nil, or_false] at hmem
  rcases hmem with heq | heq | heq | heq | heq | heq | heq <;> rw [heq] <;> trivial

/-- What an append did, of an answer that says so. -/
def outcomeOf : (Σ op : Operation, op.Reply) → Option AppendOutcome
  | ⟨.append .., .ok outcome⟩ => some outcome
  | _ => none

/-- A run is started, and an input comes under the id of a fact the start recorded. -/
def factAsInput : List Asked :=
  let start := appendBehind [] hostedStart "start"
  let fact := "aiwatcher/execution/run/start/execution_started/1"
  ([.append "run" start 0, .append "run" (appendBehind (numbered 0 0 start.messages)
    (.command (.cancelExecution "over")) fact) 1] : List Operation).map fun op => ⟨.global, op, []⟩

/-- **Not interchangeable**: the memory store appends the input, the file store takes it for
one it has seen. -/
theorem fact_as_input_parts_the_adapters :
    (fileAdapter (List RecordedMessage) fun _ => 0).emitted Disk.new factAsInput ≠
      (memoryAdapter fun _ => 0).emitted Inner.new factAsInput := by
  intro hsame
  have houtcomes := congrArg (List.map outcomeOf) hsame
  have hfile : ((fileAdapter (List RecordedMessage) fun _ => 0).emitted Disk.new factAsInput).map
      outcomeOf = [some (.appended 3), some (.duplicate 3)] := by decide +kernel
  have hmemory : ((memoryAdapter fun _ => 0).emitted Inner.new factAsInput).map outcomeOf =
      [some (.appended 3), some (.appended 7)] := by decide +kernel
  rw [hfile, hmemory] at houtcomes
  simp at houtcomes

end Aiwatcher.Store
