import Aiwatcher.Store.Forgotten

/-!
# Aiwatcher.Store.Reapply

A commit of the file store that stays in the journal, what other callers do meanwhile,
and the `recover` that applies it again.

Of what a commit writes, its attempt rows and its outbox rows are what somebody else may
have changed since.  `standing` and what the machine `meanwhile` emits are the leases and
the publications callers were told of; they hold for good where nobody takes or renews a
row that the journal writes again, or publishes one (`reapplying_is_harmless_when`).
-/

namespace Aiwatcher.Store

open Engine Library List Std

/-! ## What callers are told -/

/-- What a caller relies on from then on: an attempt is theirs for a lease's length, or a
row is published. -/
inductive Relied where
  | lease (key : AttemptKey) (owner : String) (since : OffsetDateTime)
  | published (row : OutboxMessage)

/-- Who was last told an attempt is theirs, and since when. -/
def lastLease (key : AttemptKey) (told : List Relied) : Option (String × OffsetDateTime) :=
  told.foldl (fun held what =>
    match what with
    | .lease named owner since => if named = key then some (owner, since) else held
    | .published _ => held) none

/-- What is done to a store while a commit is in its journal, and the recovery. -/
inductive Meanwhile where
  | claim (binding : ScopeBinding) (filter : ClaimFilter) (owner : String) (now : OffsetDateTime)
  | heartbeat (binding : ScopeBinding) (key : AttemptKey) (owner : String) (now : OffsetDateTime)
  | settle (binding : ScopeBinding) (key : SlotKey) (owner : String) (settlement : SlotSettlement)
      (now : OffsetDateTime)
  | publish (binding : ScopeBinding) (ids : List String)
  | recover (now : OffsetDateTime)

namespace Disk

variable {β : Type} [StreamFile β]

/-- The rows a publish of these ids drops. -/
def publishable (disk : Disk β) (binding : ScopeBinding) (ids : List String) : List OutboxMessage :=
  disk.outbox.filter fun row =>
    ids.contains row.messageId && disk.admitsPartition binding row.partitionKey

/-- Calls and recoveries, one after the other, and what each caller is told. -/
def meanwhile (β : Type) [StreamFile β] : Machine (Disk β) Meanwhile Relied where
  step disk
    | .claim binding filter owner now =>
      let (granted, after) := disk.claimAttempt binding filter owner now
      some ((granted.map fun row => .lease row.key owner now).toList, after)
    | .heartbeat binding key owner now =>
      let (renewed, after) := disk.heartbeat binding key owner now
      some (if renewed.toOption = some true then [.lease key owner now] else [], after)
    | .settle binding key owner settlement now =>
      some ([], (disk.settleSlot binding key owner settlement now).2)
    | .publish binding ids =>
      some ((disk.publishable binding ids).map .published, disk.markPublished binding ids)
    | .recover now => some ([], disk.recover now)

/-! ## What the journal writes again -/

/-- Whether the journal writes the row of an attempt. -/
def journals (disk : Disk β) (key : AttemptKey) : Bool :=
  disk.pending.any fun pending => pending.2.attempts.any fun write => write.write.key == key

/-- Whether the journal adds a row under an id to the outbox. -/
def journalsRow (disk : Disk β) (id : String) : Bool :=
  disk.pending.any fun pending => pending.2.outbox.any fun row => row.messageId == id

/-- The row a claim takes: the first in key order that may be taken, is wanted and is on
this side. -/
def nextClaim (disk : Disk β) (binding : ScopeBinding) (filter : ClaimFilter)
    (now : OffsetDateTime) : Option AttemptRow :=
  (BTreeMap.values disk.attempts).find? fun row =>
    row.isClaimable now && filter.matches row && disk.admits binding row.key.executionId

/-- A call that takes, renews or publishes nothing the journal writes again. -/
def Apart (disk : Disk β) : Meanwhile → Prop
  | .claim binding filter _ now =>
    ∀ row, disk.nextClaim binding filter now = some row → disk.journals row.key = false
  | .heartbeat binding key owner now =>
    disk.admits binding key.executionId = true →
      ∀ row : AttemptRow, disk.attempts[key]? = some row → row.isHeldBy owner now = true →
        disk.journals key = false
  | .publish binding ids =>
    ∀ row ∈ disk.publishable binding ids, disk.journalsRow row.messageId = false
  | .settle .. | .recover _ => True

/-- The leases of a table the journal does not write again. -/
def standing (disk : Disk β) : List Relied :=
  disk.attempts.toList.filterMap fun entry =>
    if disk.journals entry.1 then none
    else entry.2.leaseOwner.bind fun owner => entry.2.claimedAt.map fun since =>
      .lease entry.1 owner since

end Disk

/-! ## Histories -/

theorem lastLease_append (key : AttemptKey) (told : List Relied) (what : Relied) :
    lastLease key (told ++ [what]) = match what with
      | .lease named owner since => if named = key then some (owner, since) else lastLease key told
      | .published _ => lastLease key told := by
  simp [lastLease, foldl_append]

theorem lastLease_published (key : AttemptKey) (told : List Relied) (rows : List OutboxMessage) :
    lastLease key (told ++ rows.map .published) = lastLease key told := by
  induction rows generalizing told with
  | nil => simp
  | cons row rows ih =>
    have hrow := lastLease_append key told (.published row)
    rw [map_cons, append_cons, ih, hrow]

theorem mem_of_lastLease {key : AttemptKey} {told : List Relied} {owner : String}
    {since : OffsetDateTime} (h : lastLease key told = some (owner, since)) :
    .lease key owner since ∈ told := by
  induction told using List.reverseRecOn with
  | nil => simp [lastLease] at h
  | append_singleton told what ih =>
    rw [lastLease_append] at h
    cases what with
    | lease named holder at' =>
      dsimp only at h
      split at h
      · rename_i heq
        cases h
        simp [heq]
      · exact mem_append_left _ (ih h)
    | published row => exact mem_append_left _ (ih h)

/-! ## What recovering changes -/

namespace Disk

section Recover

variable {β : Type} [StreamFile β] {disk : Disk β} {now : OffsetDateTime}

variable {key : AttemptKey}

omit [StreamFile β] in
theorem journals_eq_false : disk.journals key = false ↔
    ∀ pending ∈ disk.pending, ∀ write ∈ pending.2.attempts, write.write.key ≠ key := by
  simp [journals]

omit [StreamFile β] in
theorem journalsRow_eq_false {id : String} : disk.journalsRow id = false ↔
    ∀ pending ∈ disk.pending, ∀ row ∈ pending.2.outbox, row.messageId ≠ id := by
  simp [journalsRow]

theorem getElem?_attempts_recover (h : disk.journals key = false) :
    (disk.recover now).attempts[key]? = disk.attempts[key]? := by
  rw [journals_eq_false] at h
  refine recover_keeps (P := fun d => d.attempts[key]? = disk.attempts[key]?)
    (fun pending hpending d hd => ?_) rfl
  have hframe : ((d.apply pending.2 now).attempts)[key]? = d.attempts[key]? := by
    rw [attempts_apply]
    refine Write.getElem?_applyAll_of_forall_ne ?_ _
    intro write hwrite
    obtain ⟨made, hmade, rfl⟩ := mem_map.mp hwrite
    exact h pending hpending made hmade
  exact hframe.trans hd

theorem not_mem_outbox_recover {row : OutboxMessage} (hout : row ∉ disk.outbox)
    (h : disk.journalsRow row.messageId = false) : row ∉ (disk.recover now).outbox := by
  rw [journalsRow_eq_false] at h
  refine recover_keeps (P := fun d => row ∉ d.outbox) (fun pending hpending d hd => ?_) hout
  show row ∉ (d.apply pending.2 now).outbox
  rw [outbox_apply, mem_append, not_or]
  exact ⟨hd, fun hmem => h pending hpending row (mem_of_mem_filter hmem) rfl⟩

theorem mem_pending_recover {pending : Nat × PendingCommit}
    (h : pending ∈ (disk.recover now).pending) : pending ∈ disk.pending := by
  have hkept : ∀ (at' : Nat) (commit : PendingCommit),
      (disk.recover now).commits[at']? = some commit → disk.commits[at']? = some commit := by
    refine recover_keeps (P := fun d => ∀ (at' : Nat) (commit : PendingCommit),
      d.commits[at']? = some commit → disk.commits[at']? = some commit)
      (fun pending _ d hd at' commit hcommit => ?_) (fun _ _ h => h)
    have hcommit : ((d.apply pending.2 now).commits.erase pending.1)[at']? = some commit := hcommit
    rw [commits_apply] at hcommit
    exact hd at' commit (Table.of_erase hcommit).2
  exact ExtTreeMap.mem_toList_iff_getElem?_eq_some.mpr
    (hkept _ _ (ExtTreeMap.mem_toList_iff_getElem?_eq_some.mp h))

theorem journals_recover (h : disk.journals key = false) :
    (disk.recover now).journals key = false :=
  journals_eq_false.mpr fun pending hpending =>
    journals_eq_false.mp h pending (mem_pending_recover hpending)

theorem journalsRow_recover {id : String} (h : disk.journalsRow id = false) :
    (disk.recover now).journalsRow id = false :=
  journalsRow_eq_false.mpr fun pending hpending =>
    journalsRow_eq_false.mp h pending (mem_pending_recover hpending)

theorem keyed_recover (h : Keyed disk.attempts) : Keyed (disk.recover now).attempts := by
  refine recover_keeps (P := fun d => Keyed d.attempts) (fun pending _ d hd => ?_) h
  show Keyed (d.apply pending.2 now).attempts
  rw [attempts_apply]
  exact keyed_append hd _

end Recover

/-! ## What each call does -/

section Calls

variable {β : Type} [StreamFile β] {disk : Disk β} {binding : ScopeBinding} {now : OffsetDateTime}

theorem claimAttempt_cases (hkeyed : Keyed disk.attempts) (binding : ScopeBinding)
    (filter : ClaimFilter) (owner : String) (now : OffsetDateTime) :
    (disk.claimAttempt binding filter owner now = (none, disk)) ∨
      ∃ row : AttemptRow, disk.nextClaim binding filter now = some row ∧
        row.isClaimable now = true ∧ disk.attempts[row.key]? = some row ∧
        disk.claimAttempt binding filter owner now = (some (row.claim owner now),
          { disk with attempts := disk.attempts.insert row.key (row.claim owner now) }) := by
  unfold Disk.claimAttempt
  cases hnext : disk.nextClaim binding filter now with
  | none =>
    unfold nextClaim at hnext
    rw [hnext]
    exact .inl rfl
  | some row =>
    unfold nextClaim at hnext
    rw [hnext]
    have hfound := find?_some hnext
    simp only [Bool.and_eq_true] at hfound
    obtain ⟨key, hkey⟩ := BTreeMap.mem_values.mp (mem_of_find?_eq_some hnext)
    have hheld : disk.attempts[row.key]? = some row := by rw [hkeyed key row hkey, hkey]
    refine .inr ⟨row, rfl, hfound.1.1, hheld, ?_⟩
    simp only [hheld]

theorem heartbeat_cases (disk : Disk β) (binding : ScopeBinding) (key : AttemptKey)
    (owner : String) (now : OffsetDateTime) :
    ((disk.heartbeat binding key owner now).1.toOption ≠ some true ∧
        (disk.heartbeat binding key owner now).2 = disk) ∨
      ∃ row : AttemptRow, disk.admits binding key.executionId = true ∧
        disk.attempts[key]? = some row ∧ row.isHeldBy owner now = true ∧
        disk.heartbeat binding key owner now = (.ok true,
          { disk with attempts := disk.attempts.insert key { row with claimedAt := some now } }) := by
  unfold Disk.heartbeat Disk.admits
  cases hcheck : disk.check binding key.executionId with
  | error refused => exact .inl ⟨by simp [Except.toOption], rfl⟩
  | ok _ =>
    cases hrow : disk.attempts[key]? with
    | none => exact .inl ⟨by simp [Except.toOption], rfl⟩
    | some row =>
      cases hheld : row.isHeldBy owner now with
      | false => exact .inl ⟨by simp [Except.toOption, hheld], by simp [hheld]⟩
      | true => exact .inr ⟨row, rfl, rfl, hheld, by simp [hheld]⟩

omit [StreamFile β] in
theorem settleSlot_frame (key : SlotKey) (owner : String) (settlement : SlotSettlement) :
    (disk.settleSlot binding key owner settlement now).2 =
      { disk with slots := (disk.settleSlot binding key owner settlement now).2.slots } := by
  unfold Disk.settleSlot
  split
  · rfl
  · dsimp only
    split
    · rfl
    · split <;> rfl

end Calls

/-! ## What callers rely on -/

/-- What callers were told holds, and the journal does not undo it. -/
structure Keeps {β : Type} (told : List Relied) (disk : Disk β) : Prop where
  keyed : Keyed disk.attempts
  leases : ∀ key owner since, lastLease key told = some (owner, since) →
    disk.journals key = false ∧ ∃ row : AttemptRow, disk.attempts[key]? = some row ∧
      row.leaseOwner = some owner ∧ row.claimedAt = some since
  published : ∀ row, .published row ∈ told →
    row ∉ disk.outbox ∧ disk.journalsRow row.messageId = false

section Keeps

variable {β : Type} [StreamFile β] {disk : Disk β} {told : List Relied} {binding : ScopeBinding}
  {now : OffsetDateTime}

omit [StreamFile β] in
theorem Keeps.grant (h : Keeps told disk) {key : AttemptKey} {owner : String} {row : AttemptRow}
    (hjournal : disk.journals key = false) (hkey : row.key = key)
    (howner : row.leaseOwner = some owner) (hsince : row.claimedAt = some now) :
    Keeps (told ++ [.lease key owner now])
      { disk with attempts := disk.attempts.insert key row } where
  keyed := keyed_insert h.keyed hkey
  leases other holder since hlast := by
    rw [lastLease_append] at hlast
    dsimp only at hlast
    rw [Table.getElem?_insert]
    split at hlast
    · rename_i heq
      subst heq
      cases hlast
      exact ⟨hjournal, row, if_pos rfl, howner, hsince⟩
    · rename_i hne
      rw [if_neg hne]
      exact h.leases other holder since hlast
  published other hmem := h.published other (by simpa using hmem)

theorem Keeps.claim (h : Keeps told disk) {filter : ClaimFilter} {owner : String}
    (hapart : disk.Apart (.claim binding filter owner now)) :
    Keeps (told ++ ((disk.claimAttempt binding filter owner now).1.map fun row =>
        Relied.lease row.key owner now).toList)
      (disk.claimAttempt binding filter owner now).2 := by
  rcases claimAttempt_cases h.keyed binding filter owner now with
    hnone | ⟨row, hnext, -, -, hsome⟩
  · simpa [hnone] using h
  · rw [hsome]
    exact h.grant (hapart row hnext) rfl rfl rfl

theorem Keeps.heartbeat (h : Keeps told disk) {key : AttemptKey} {owner : String}
    (hapart : disk.Apart (.heartbeat binding key owner now)) :
    Keeps (told ++ if (disk.heartbeat binding key owner now).1.toOption = some true then
        [Relied.lease key owner now] else [])
      (disk.heartbeat binding key owner now).2 := by
  rcases heartbeat_cases disk binding key owner now with
    ⟨hno, hsame⟩ | ⟨row, hadmits, hrow, hheld, hsome⟩
  · rw [if_neg hno, hsame]
    simpa using h
  · rw [hsome]
    have howner : row.leaseOwner = some owner := by
      simp only [AttemptRow.isHeldBy, Bool.and_eq_true, beq_iff_eq] at hheld
      exact hheld.1
    exact h.grant (hapart hadmits row hrow hheld) (h.keyed key row hrow) howner rfl

theorem Keeps.publish (h : Keeps told disk) {ids : List String}
    (hapart : disk.Apart (.publish binding ids)) :
    Keeps (told ++ (disk.publishable binding ids).map .published)
      (disk.markPublished binding ids) where
  keyed := h.keyed
  leases key owner since hlast := h.leases key owner since (by rwa [lastLease_published] at hlast)
  published row hmem := by
    rcases mem_append.mp hmem with hold | hnew
    · obtain ⟨hout, hjournal⟩ := h.published row hold
      exact ⟨fun hmem => hout (mem_of_mem_filter hmem), hjournal⟩
    · obtain ⟨dropped, hdropped, heq⟩ := mem_map.mp hnew
      cases heq
      refine ⟨fun hmem => ?_, hapart row hdropped⟩
      have hkept := (mem_filter.mp hmem).2
      have hgone := (mem_filter.mp hdropped).2
      rw [hgone] at hkept
      cases hkept

theorem Keeps.recover (h : Keeps told disk) (now : OffsetDateTime) :
    Keeps told (disk.recover now) where
  keyed := keyed_recover h.keyed
  leases key owner since hlast := by
    obtain ⟨hjournal, row, hrow⟩ := h.leases key owner since hlast
    exact ⟨journals_recover hjournal, row, (getElem?_attempts_recover hjournal).trans hrow.1, hrow.2⟩
  published row hmem := by
    obtain ⟨hout, hjournal⟩ := h.published row hmem
    exact ⟨not_mem_outbox_recover hout hjournal, journalsRow_recover hjournal⟩

/-- **One call or recovery** keeps what callers were told. -/
theorem Keeps.step (h : Keeps told disk) {act : Meanwhile} (hapart : disk.Apart act)
    {out : List Relied} {after : Disk β} (hstep : (meanwhile β).step disk act = some (out, after)) :
    Keeps (told ++ out) after := by
  cases act with
  | claim binding filter owner now =>
    cases hstep
    exact h.claim hapart
  | heartbeat binding key owner now =>
    cases hstep
    exact h.heartbeat hapart
  | settle binding key owner settlement now =>
    cases hstep
    rw [settleSlot_frame, append_nil]
    exact ⟨h.keyed, h.leases, h.published⟩
  | publish binding ids =>
    cases hstep
    exact h.publish hapart
  | recover now =>
    cases hstep
    rw [append_nil]
    exact h.recover now

omit [StreamFile β] in
/-- The leases that stand, but for those of rows the journal writes. -/
theorem keeps_standing (hkeyed : Keyed disk.attempts) : Keeps disk.standing disk where
  keyed := hkeyed
  leases key owner since hlast := by
    obtain ⟨entry, hentry, hmade⟩ := mem_filterMap.mp (mem_of_lastLease hlast)
    split at hmade
    · cases hmade
    · rename_i hjournal
      obtain ⟨holder, howner, hmade⟩ := Option.bind_eq_some_iff.mp hmade
      obtain ⟨at', hsince, hmade⟩ := Option.map_eq_some_iff.mp hmade
      cases hmade
      exact ⟨by simpa using hjournal, entry.2,
        ExtTreeMap.mem_toList_iff_getElem?_eq_some.mp hentry, howner, hsince⟩
  published row hmem := by
    obtain ⟨entry, -, hmade⟩ := mem_filterMap.mp hmem
    split at hmade
    · cases hmade
    · obtain ⟨holder, -, hmade⟩ := Option.bind_eq_some_iff.mp hmade
      obtain ⟨at', -, hmade⟩ := Option.map_eq_some_iff.mp hmade
      cases hmade

end Keeps

end Disk

/-! ## Applying a commit again -/

/-- **Harmless where nobody touched it.**  From a directory with any journal, however calls
and recoveries follow each other while every claim, heartbeat and publish stays apart from
what the journal writes again: a lease stands for its last holder with its deadline, a
published row stays published, and no claim is granted on an attempt whose last lease has
not ended. -/
theorem reapplying_is_harmless_when {β : Type} [StreamFile β] (start : Disk β)
    (acts : List Meanwhile) (hkeyed : Keyed start.attempts)
    (hapart : ∀ st ∈ (Disk.meanwhile β).run start acts, st.before.Apart st.input) :
    let told := start.standing ++ (Disk.meanwhile β).emitted start acts
    let reached := (Disk.meanwhile β).last start acts
    (∀ key owner since, lastLease key told = some (owner, since) →
        ∃ row : AttemptRow, reached.attempts[key]? = some row ∧ row.leaseOwner = some owner ∧
          row.claimedAt = some since) ∧
      (∀ row, .published row ∈ told → row ∉ reached.outbox) ∧
      ∀ binding filter owner now row, (reached.claimAttempt binding filter owner now).1 = some row →
        ∀ holder since, lastLease row.key told = some (holder, since) →
          leaseExpired (some since) now = true := by
  intro told reached
  have hkeeps : Disk.Keeps told reached :=
    Machine.accum_run (fun told disk => Disk.Keeps told disk) Disk.Apart
      (fun told disk act out after h hcall hstep => h.step hcall hstep)
      (Disk.keeps_standing hkeyed) hapart
  refine ⟨fun key owner since hlast => (hkeeps.leases key owner since hlast).2,
    fun row hmem => (hkeeps.published row hmem).1, ?_⟩
  intro binding filter owner now granted hgranted holder since hlast
  rcases Disk.claimAttempt_cases hkeeps.keyed binding filter owner now with
    hnone | ⟨row, -, hclaimable, hrow, hsome⟩
  · rw [hnone] at hgranted
    cases hgranted
  · rw [hsome] at hgranted
    cases hgranted
    obtain ⟨-, held, hheld, -, hsince⟩ := hkeeps.leases _ holder since hlast
    have hsame : some row = some held := hrow.symm.trans hheld
    cases hsame
    simp only [AttemptRow.isClaimable, AttemptRow.awaitsAClaimant, Bool.and_eq_true] at hclaimable
    rw [← hsince]
    exact hclaimable.1.2

/-- A start whose one step is dispatched and whose one fact goes to the outbox. -/
def startOfWork : AppendRequest :=
  { appendBehind [] (startOf (planOf [workerStep "work"] [])) "start" with
    outbox := [⟨"fact", "execution_started", partitionOf "run", .null, 0, 0, none, none⟩] }

/-- The run was started, and the append that pauses it stopped after its third file. -/
def pausedHalfway : Disk (List RecordedMessage) :=
  let started := (Disk.new.append .global (fun _ => 0) "run" startOfWork 0).2
  started.appendStopped (fun _ => 0) .global "run"
    (appendBehind (started.readStream "run") (.command .pauseExecution) "pause") 1 3

/-- A worker takes the step, says it is still there, the fact is published, and the append
that was stopped is finished. -/
def meanwhileOfWork : List Meanwhile :=
  [.claim .global ⟨none, [], ["default"], ["task@1"]⟩ "worker" 2,
    .heartbeat .global ⟨"run", "work", 1⟩ "worker" 3, .publish .global ["fact"], .recover 4]

theorem journals_of_empty {β : Type} {disk : Disk β}
    (h : (disk.pending.all fun pending => pending.2.attempts.isEmpty && pending.2.outbox.isEmpty) =
      true) (key : AttemptKey) (id : String) :
    disk.journals key = false ∧ disk.journalsRow id = false := by
  simp only [all_eq_true, Bool.and_eq_true, List.isEmpty_iff] at h
  rw [Disk.journals_eq_false, Disk.journalsRow_eq_false]
  exact ⟨fun pending hpending => by simp [(h pending hpending).1],
    fun pending hpending => by simp [(h pending hpending).2]⟩

theorem own_startOfWork : startOfWork.Own "run" :=
  have hown : (appendBehind [] (startOf (planOf [workerStep "work"] [])) "start").Own "run" :=
    own_request ..
  ⟨hown.timers, hown.attempts, by simp [startOfWork], hown.projection⟩

theorem pausedHalfway_is_harmless :
    pausedHalfway.pending.length = 1 ∧
      ∃ row : AttemptRow,
        ((Disk.meanwhile _).last pausedHalfway meanwhileOfWork).attempts[(⟨"run", "work", 1⟩ :
          AttemptKey)]? = some row ∧ row.leaseOwner = some "worker" ∧ row.claimedAt = some 3 := by
  have hkeyed : Keyed pausedHalfway.attempts :=
    ((Disk.sound_new.append (fun _ => 0) own_startOfWork 0).appendStopped (fun _ => 0)
      (own_request plainDeployment "run" _ _ _) 1 3).keyed
  have hapart : ∀ st ∈ (Disk.meanwhile _).run pausedHalfway meanwhileOfWork,
      st.before.Apart st.input := by
    rw [meanwhileOfWork, Machine.run_cons_some rfl, Machine.run_cons_some rfl,
      Machine.run_cons_some rfl, Machine.run_cons_some rfl]
    simp only [List.forall_mem_cons]
    refine ⟨fun row _ => (journals_of_empty ?_ _ "").1, fun _ row _ _ => (journals_of_empty ?_ _ "").1,
      fun row _ => (journals_of_empty ?_ ⟨"", "", 0⟩ _).2, trivial, by simp [Machine.run]⟩
    · decide +kernel
    · decide +kernel
    · decide +kernel
  have hharmless := reapplying_is_harmless_when pausedHalfway meanwhileOfWork hkeyed hapart
  exact ⟨by decide +kernel, hharmless.1 ⟨"run", "work", 1⟩ "worker" 3 (by decide +kernel)⟩

/-- The append that starts the run wrote its rows, and stopped before it was taken out of the
journal. -/
def startedHalfway : Disk (List RecordedMessage) :=
  Disk.new.appendStopped (fun _ => 0) .global "run" startOfWork 0 7

/-- **Recovery takes it back**: the worker holds the attempt until its lease ends and the fact
is published, and after the recovery a second worker is given the attempt and the fact waits
to be published again. -/
theorem recovery_takes_it_back :
    lastLease ⟨"run", "work", 1⟩ ((Disk.meanwhile _).emitted startedHalfway meanwhileOfWork) =
        some ("worker", 3) ∧
      leaseExpired (some 3) 5 = false ∧
      ((((Disk.meanwhile _).last startedHalfway meanwhileOfWork).claimAttempt .global
        ⟨none, [], ["default"], ["task@1"]⟩ "second" 5).1.map fun row => (row.key, row.leaseOwner)) =
          some (⟨"run", "work", 1⟩, some "second") ∧
      (startedHalfway.publishable .global ["fact"]).length = 1 ∧
      (((Disk.meanwhile _).last startedHalfway meanwhileOfWork).pendingOutbox .global 10).map
        (·.messageId) = ["fact"] := by
  decide +kernel

end Aiwatcher.Store
