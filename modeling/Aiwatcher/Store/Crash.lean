import Aiwatcher.Store.File

/-!
# Aiwatcher.Store.Crash

What the file store's journal is for: an append that stops between two files, and the
`recover` that finishes it.

`stages` is `apply` file by file, so that it can stop after any of them.  A store that
is opened again recovers first.
-/

namespace Aiwatcher.Store

open Engine Library List Std

namespace Disk

variable {β : Type} [StreamFile β]

/-! ## Stopping between two files -/

/-- The files of a commit, in the order they are written. -/
def stages (commit : PendingCommit) (now : OffsetDateTime) : List (Disk β → Disk β) :=
  [(applyOwnership · commit), (applyStream · commit now), (applyProjection · commit),
    (applyOutbox · commit), (applyTimers · commit), (applyAttempts · commit),
    (applyCheckpoint · commit)]

/-- `apply` as far as `reached` files. -/
def applyUpTo (disk : Disk β) (commit : PendingCommit) (now : OffsetDateTime) (reached : Nat) :
    Disk β :=
  ((stages commit now).take reached).foldl (fun disk stage => stage disk) disk

variable {P : Disk β → Prop} {commit : PendingCommit} {disk : Disk β} {now : OffsetDateTime}

theorem forall_stages {P : (Disk β → Disk β) → Prop} :
    (∀ stage ∈ stages commit now, P stage) ↔
      P (applyOwnership · commit) ∧ P (applyStream · commit now) ∧ P (applyProjection · commit) ∧
        P (applyOutbox · commit) ∧ P (applyTimers · commit) ∧ P (applyAttempts · commit) ∧
        P (applyCheckpoint · commit) := by
  simp [stages]

/-- **Stage rule**: what every file of a commit keeps, `apply` keeps wherever it stops. -/
theorem applyUpTo_keeps (hstage : ∀ stage ∈ stages commit now, ∀ disk, P disk → P (stage disk))
    (h : P disk) (reached : Nat) : P (disk.applyUpTo commit now reached) := by
  have hall : ∀ todo : List (Disk β → Disk β), (∀ stage ∈ todo, ∀ disk, P disk → P (stage disk)) →
      ∀ disk, P disk → P (todo.foldl (fun disk stage => stage disk) disk) := by
    intro todo
    induction todo with
    | nil => exact fun _ _ h => h
    | cons stage todo ih =>
      intro hkeeps disk h
      exact ih (fun s hs => hkeeps s (mem_cons_of_mem _ hs)) _
        (hkeeps stage mem_cons_self disk h)
  exact hall _ (fun stage hmem => hstage stage (mem_of_mem_take hmem)) disk h

theorem apply_keeps (hstage : ∀ stage ∈ stages commit now, ∀ disk, P disk → P (stage disk))
    (h : P disk) : P (disk.apply commit now) :=
  applyUpTo_keeps hstage h 7

/-! ## What a commit writes -/

section Written

variable (disk : Disk β) (commit : PendingCommit) (now : OffsetDateTime)

theorem applyStream_eq : disk.applyStream commit now =
    { disk with streams := (disk.applyStream commit now).streams } := by
  unfold applyStream
  split <;> rfl

@[simp] theorem ownership_apply : (disk.apply commit now).ownership =
    commit.ownership.elim disk.ownership fun owner =>
      disk.ownership.insert commit.execution owner := by
  show ((disk.applyOwnership commit).applyStream commit now).ownership = _
  rw [applyStream_eq]
  rfl

@[simp] theorem projections_apply : (disk.apply commit now).projections =
    disk.projections.insert commit.execution commit.projection := by
  show ((disk.applyOwnership commit).applyStream commit now).projections.insert .. = _
  rw [applyStream_eq]
  rfl

@[simp] theorem outbox_apply : (disk.apply commit now).outbox =
    disk.outbox ++ newRows disk.outbox commit.outbox := by
  show ((disk.applyOwnership commit).applyStream commit now).outbox ++
    newRows ((disk.applyOwnership commit).applyStream commit now).outbox commit.outbox = _
  rw [applyStream_eq]
  rfl

@[simp] theorem timers_apply : (disk.apply commit now).timers =
    disk.timers.append commit.execution commit.timers := by
  show ((disk.applyOwnership commit).applyStream commit now).timers.append .. = _
  rw [applyStream_eq]
  rfl

@[simp] theorem attempts_apply : (disk.apply commit now).attempts =
    disk.attempts.append commit.attempts := by
  show ((disk.applyOwnership commit).applyStream commit now).attempts.append _ = _
  rw [applyStream_eq]
  rfl

@[simp] theorem checkpoints_apply : (disk.apply commit now).checkpoints =
    commit.checkpoint.elim disk.checkpoints fun cursor =>
      disk.checkpoints.insert cursor.1 cursor.2 := by
  show commit.checkpoint.elim ((disk.applyOwnership commit).applyStream commit now).checkpoints
    (fun cursor => ((disk.applyOwnership commit).applyStream commit now).checkpoints.insert
      cursor.1 cursor.2) = _
  rw [applyStream_eq]
  rfl

@[simp] theorem streams_apply : (disk.apply commit now).streams =
    (disk.applyStream commit now).streams := by
  show ((disk.applyOwnership commit).applyStream commit now).streams = _
  unfold applyStream
  split <;> split <;> first | rfl | contradiction

@[simp] theorem deciderLeases_apply : (disk.apply commit now).deciderLeases = disk.deciderLeases := by
  show ((disk.applyOwnership commit).applyStream commit now).deciderLeases = _
  rw [applyStream_eq]
  rfl

@[simp] theorem slots_apply : (disk.apply commit now).slots = disk.slots := by
  show ((disk.applyOwnership commit).applyStream commit now).slots = _
  rw [applyStream_eq]
  rfl

@[simp] theorem commits_apply : (disk.apply commit now).commits = disk.commits := by
  show ((disk.applyOwnership commit).applyStream commit now).commits = _
  rw [applyStream_eq]
  rfl

end Written

/-! ## Recovering -/

/-- One record of the journal applied and taken out of it. -/
def finish (disk : Disk β) (pending : Nat × PendingCommit) (now : OffsetDateTime) : Disk β :=
  let applied := disk.apply pending.2 now
  { applied with commits := applied.commits.erase pending.1 }

/-- **Recovery rule**: what finishing each record of the journal keeps, `recover` keeps. -/
theorem recover_keeps
    (hfinish : ∀ pending ∈ disk.pending, ∀ disk, P disk → P (disk.finish pending now)) (h : P disk)
    : P (disk.recover now) := by
  have hall : ∀ todo : List (Nat × PendingCommit),
      (∀ pending ∈ todo, ∀ disk, P disk → P (disk.finish pending now)) →
      ∀ disk, P disk → P (todo.foldl (fun disk pending => disk.finish pending now) disk) := by
    intro todo
    induction todo with
    | nil => exact fun _ _ h => h
    | cons pending todo ih =>
      intro hkeeps disk h
      exact ih (fun p hp => hkeeps p (mem_cons_of_mem _ hp)) _
        (hkeeps pending mem_cons_self disk h)
  exact hall disk.pending hfinish disk h

@[simp] theorem commits_recover (disk : Disk β) (now : OffsetDateTime) :
    (disk.recover now).commits = ∅ := by
  have hall : ∀ (todo : List (Nat × PendingCommit)) (disk : Disk β),
      (todo.foldl (fun disk pending => disk.finish pending now) disk).commits =
        Table.dropAll disk.commits (todo.map Prod.fst) := by
    intro todo
    induction todo with
    | nil => exact fun _ => rfl
    | cons pending todo ih =>
      intro disk
      have hfinish : (disk.finish pending now).commits = disk.commits.erase pending.1 := by
        show (disk.apply pending.2 now).commits.erase pending.1 = _
        rw [commits_apply]
      rw [foldl_cons, ih, hfinish]
      rfl
  apply ExtTreeMap.ext_getElem?
  intro k
  show ((disk.pending.foldl (fun disk pending => disk.finish pending now) disk).commits)[k]? = _
  rw [hall, Table.getElem?_dropAll]
  cases hheld : disk.commits[k]? with
  | none => simp
  | some commit =>
    have hmem : k ∈ disk.pending.map Prod.fst := mem_map.mpr
      ⟨(k, commit), ExtTreeMap.mem_toList_iff_getElem?_eq_some.mpr hheld, rfl⟩
    simp [hmem]

theorem recover_of_empty (h : disk.commits = ∅) (now : OffsetDateTime) :
    disk.recover now = disk := by
  have hnone : disk.pending = [] := by
    rw [pending, h, ← List.isEmpty_iff, ExtTreeMap.isEmpty_toList]
    rfl
  unfold recover
  rw [hnone]
  rfl

theorem recover_of_single {at' : Nat}
    (h : disk.commits = (∅ : BTreeMap Nat PendingCommit).insert at' commit) (now : OffsetDateTime) :
    disk.recover now = disk.finish (at', commit) now := by
  have hsize : disk.pending.length = 1 := by
    rw [pending, h, ExtTreeMap.length_toList, ExtTreeMap.size_insert]
    rfl
  have hmem : (at', commit) ∈ disk.pending := by
    rw [pending, h, ExtTreeMap.mem_toList_iff_getElem?_eq_some]
    exact ExtTreeMap.getElem?_insert_self
  obtain ⟨pending, hpending⟩ := length_eq_one_iff.mp hsize
  rw [hpending, mem_singleton] at hmem
  unfold recover
  rw [hpending, ← hmem]
  rfl

/-! ## Opening again -/

/-- `retire_finished_attempts`: rows of an older build that have ended go. -/
def retireFinishedAttempts (disk : Disk β) : Disk β :=
  { disk with attempts := disk.attempts.filter fun _ row => !row.state.isTerminal }

/-- `open` of a directory that is there already. -/
def reopen (disk : Disk β) (now : OffsetDateTime) : Disk β :=
  (disk.recover now).retireFinishedAttempts

/-- An append whose `apply` stops after `reached` files: its record stays in the journal. -/
def appendStopped (disk : Disk β) (size : WorkflowMessage → Nat) (binding : ScopeBinding)
    (execution : String) (request : AppendRequest) (now : OffsetDateTime) (reached : Nat) :
    Disk β :=
  match request.checkPayloads size with
  | .error _ => disk
  | .ok () =>
    let disk := disk.recover now
    match disk.accept binding execution request now with
    | .inl _ => disk
    | .inr commit => (disk.journal commit now).applyUpTo commit now reached

end Disk

end Aiwatcher.Store
