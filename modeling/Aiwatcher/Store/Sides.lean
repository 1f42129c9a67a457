import Aiwatcher.Store.Memory
import Aiwatcher.Store.Own

/-!
# Aiwatcher.Store.Sides

What the memory store keeps of one execution, as a relation between two stores:
`SameAt` when they hold the same, `Blank` when one holds nothing.

An operation that names an execution answers from what is held of that one
(`perform_congr`) and changes nothing of another (`perform_frame`).
-/

namespace Aiwatcher.Store

open Engine Library Table

namespace Inner

/-! ## One execution -/

/-- Two stores hold the same of an execution. -/
structure SameAt (execution : String) (s u : Inner) : Prop where
  stream : u.stream execution = s.stream execution
  seen : u.seen[execution]? = s.seen[execution]?
  projection : u.projections[execution]? = s.projections[execution]?
  lease : u.deciderLeases[execution]? = s.deciderLeases[execution]?
  ownership : u.ownership[execution]? = s.ownership[execution]?
  attempts : ∀ key : AttemptKey, key.executionId = execution → u.attempts[key]? = s.attempts[key]?
  timers : ∀ key : TimerKey, key.execution = execution → u.timers[key]? = s.timers[key]?

/-- A store holds nothing of an execution. -/
structure Blank (execution : String) (s : Inner) : Prop where
  stream : s.stream execution = []
  seen : s.seen[execution]? = none
  projection : s.projections[execution]? = none
  lease : s.deciderLeases[execution]? = none
  ownership : s.ownership[execution]? = none
  attempts : ∀ key : AttemptKey, key.executionId = execution → s.attempts[key]? = none
  timers : ∀ key : TimerKey, key.execution = execution → s.timers[key]? = none

/-- Attempt rows and timers are kept under their own keys. -/
structure Filed (s : Inner) : Prop where
  attempts : ∀ (key : AttemptKey) (row : AttemptRow), s.attempts[key]? = some row → row.key = key
  timers : ∀ (key : TimerKey) (timer : Timer), s.timers[key]? = some timer → timerKey timer = key

variable {execution other : String} {s t u : Inner} {binding : ScopeBinding}

@[refl] theorem SameAt.refl (execution : String) (s : Inner) : SameAt execution s s :=
  ⟨rfl, rfl, rfl, rfl, rfl, fun _ _ => rfl, fun _ _ => rfl⟩

theorem SameAt.symm (h : SameAt execution s u) : SameAt execution u s where
  stream := h.stream.symm
  seen := h.seen.symm
  projection := h.projection.symm
  lease := h.lease.symm
  ownership := h.ownership.symm
  attempts key hkey := (h.attempts key hkey).symm
  timers key hkey := (h.timers key hkey).symm

theorem SameAt.trans (h : SameAt execution s t) (h' : SameAt execution t u) :
    SameAt execution s u where
  stream := h'.stream.trans h.stream
  seen := h'.seen.trans h.seen
  projection := h'.projection.trans h.projection
  lease := h'.lease.trans h.lease
  ownership := h'.ownership.trans h.ownership
  attempts key hkey := (h'.attempts key hkey).trans (h.attempts key hkey)
  timers key hkey := (h'.timers key hkey).trans (h.timers key hkey)

theorem Blank.same (hs : Blank execution s) (hu : Blank execution u) : SameAt execution s u where
  stream := hu.stream.trans hs.stream.symm
  seen := hu.seen.trans hs.seen.symm
  projection := hu.projection.trans hs.projection.symm
  lease := hu.lease.trans hs.lease.symm
  ownership := hu.ownership.trans hs.ownership.symm
  attempts key hkey := (hu.attempts key hkey).trans (hs.attempts key hkey).symm
  timers key hkey := (hu.timers key hkey).trans (hs.timers key hkey).symm

theorem Blank.of_same (hs : Blank execution s) (h : SameAt execution s u) : Blank execution u where
  stream := h.stream.trans hs.stream
  seen := h.seen.trans hs.seen
  projection := h.projection.trans hs.projection
  lease := h.lease.trans hs.lease
  ownership := h.ownership.trans hs.ownership
  attempts key hkey := (h.attempts key hkey).trans (hs.attempts key hkey)
  timers key hkey := (h.timers key hkey).trans (hs.timers key hkey)

/-! ### What depends on it -/

section

variable (h : SameAt execution s u)

include h

theorem SameAt.holds : u.holds execution = s.holds execution := by
  rw [Inner.holds, Inner.holds, h.stream]

theorem SameAt.ownerOf : u.ownerOf execution = s.ownerOf execution :=
  h.ownership

theorem SameAt.admits (binding : ScopeBinding) :
    u.admits binding execution = s.admits binding execution := by
  rw [Inner.admits, Inner.admits, h.ownerOf, h.holds]

theorem SameAt.check (binding : ScopeBinding) :
    u.check binding execution = s.check binding execution := by
  rw [Inner.check, Inner.check, h.ownerOf, h.holds]

theorem SameAt.about (binding : ScopeBinding) {α : Type} {a b : α} (hanswer : b = a) :
    u.about binding execution b = s.about binding execution a := by
  rw [Inner.about, Inner.about, h.check, hanswer]

theorem SameAt.seenAt (id : String) : u.seenAt execution id = s.seenAt execution id := by
  rw [Inner.seenAt, Inner.seenAt, h.seen]

end

/-! ## What an append leaves -/

theorem same_reach (execution other : String) (s : Inner) :
    SameAt execution s (s.reach other) where
  stream := stream_reach ..
  seen := rfl
  projection := rfl
  lease := rfl
  ownership := rfl
  attempts _ _ := rfl
  timers _ _ := rfl

section Commit

variable {request : AppendRequest} (establishing : Option ExecutionOwnership)
  (now : OffsetDateTime)

theorem getElem?_ownership_commit (s : Inner) (execution e : String) :
    (s.commit execution establishing request now).ownership[e]? =
      if execution = e then establishing.or s.ownership[e]? else s.ownership[e]? := by
  cases establishing with
  | none => simp [Inner.commit]
  | some owner =>
    refine (getElem?_insert ..).trans ?_
    simp

theorem commit_frame (hother : other ≠ execution) (hown : request.Own other) (s : Inner) :
    SameAt execution s (s.commit other establishing request now) where
  stream := by rw [stream_commit, if_neg hother]
  seen := (getElem?_insert ..).trans (if_neg hother)
  projection := (getElem?_projections_commit ..).trans (if_neg hother)
  lease := rfl
  ownership := (getElem?_ownership_commit ..).trans (if_neg hother)
  attempts key hkey := by
    refine Write.getElem?_applyAll_of_forall_ne (fun w hw => ?_) s.attempts
    obtain ⟨write, hmem, rfl⟩ := List.mem_map.mp hw
    intro heq
    exact hother ((hown.attempts write hmem).symm.trans (heq ▸ hkey))
  timers key hkey := by
    refine Write.getElem?_applyAll_of_forall_ne (fun w hw => ?_) s.timers
    obtain ⟨write, hmem, rfl⟩ := List.mem_map.mp hw
    intro heq
    have hnamed : key.execution = other := by
      rw [← heq]
      cases write with
      | schedule timer => exact hown.timers timer hmem
      | cancel id => rfl
      | fire id => rfl
    exact hother (hnamed.symm.trans hkey)

theorem SameAt.commit (h : SameAt execution s u) :
    SameAt execution (s.commit execution establishing request now)
      (u.commit execution establishing request now) where
  stream := by simp only [stream_commit, h.stream, if_true]
  seen := by simp only [Inner.commit, getElem?_insert, h.seen, h.stream]
  projection := by simp only [getElem?_projections_commit, if_true]
  lease := h.lease
  ownership := by simp only [getElem?_ownership_commit, h.ownership]
  attempts key hkey := Write.getElem?_applyAll_congr _ (h.attempts key hkey)
  timers key hkey := Write.getElem?_applyAll_congr _ (h.timers key hkey)

end Commit

theorem append_frame (hother : other ≠ execution) {request : AppendRequest}
    (hown : request.Own other) (s : Inner) (size : WorkflowMessage → Nat) (now : OffsetDateTime) :
    SameAt execution s (s.append binding size other request now).2 := by
  have happend := appending_append size s binding other request now
  generalize (s.append binding size other request now).1 = reply,
    (s.append binding size other request now).2 = after at happend ⊢
  cases happend with
  | tooLarge => rfl
  | written => exact commit_frame _ now hother hown s
  | _ => exact same_reach ..

theorem SameAt.append (h : SameAt execution s u) (size : WorkflowMessage → Nat)
    (request : AppendRequest) (now : OffsetDateTime) :
    (u.append binding size execution request now).1 =
        (s.append binding size execution request now).1 ∧
      SameAt execution (s.append binding size execution request now).2
        (u.append binding size execution request now).2 := by
  have hreach : SameAt execution (s.reach execution) (u.reach execution) :=
    ((same_reach execution execution s).symm.trans h).trans (same_reach ..)
  unfold Inner.append
  cases request.checkPayloads size with
  | error refused => exact ⟨rfl, h⟩
  | ok _ =>
    simp only [h.stream, h.ownerOf]
    cases binding.appending execution request.ownership (s.ownerOf execution)
        ((s.stream execution).length == 0) with
    | error refused => exact ⟨rfl, hreach⟩
    | ok establishing =>
      simp only [h.seenAt]
      cases s.seenAt execution request.inputId with
      | some seen => exact ⟨rfl, hreach⟩
      | none =>
        dsimp only
        cases request.expectedVersion.check (s.stream execution).length with
        | error conflict => exact ⟨rfl, hreach⟩
        | ok _ => exact ⟨rfl, h.commit establishing now⟩

/-! ## Leases and heartbeats -/

theorem lease_frame (s : Inner) {leases : BTreeMap String DeciderLease}
    (h : leases[execution]? = s.deciderLeases[execution]?) :
    SameAt execution s { s with deciderLeases := leases } :=
  { SameAt.refl execution s with lease := h }

variable {key : AttemptKey}

theorem attempt_frame (s : Inner) (hother : key.executionId ≠ execution) (row : AttemptRow) :
    SameAt execution s { s with attempts := s.attempts.insert key row } := by
  refine { SameAt.refl execution s with attempts := fun k hk => ?_ }
  refine (getElem?_insert ..).trans (if_neg fun heq => ?_)
  exact hother (heq ▸ hk)

theorem SameAt.attempt (h : SameAt execution s u) (key : AttemptKey) (row : AttemptRow) :
    SameAt execution { s with attempts := s.attempts.insert key row }
      { u with attempts := u.attempts.insert key row } :=
  { h with attempts := fun k hk => by simp only [getElem?_insert, h.attempts k hk] }

theorem SameAt.takeDeciderLease (h : SameAt execution s u) (holder : String)
    (now : OffsetDateTime) :
    (u.takeDeciderLease binding execution holder now).1 =
        (s.takeDeciderLease binding execution holder now).1 ∧
      SameAt execution (s.takeDeciderLease binding execution holder now).2
        (u.takeDeciderLease binding execution holder now).2 := by
  have hgrant : ∀ lease : DeciderLease,
      SameAt execution { s with deciderLeases := s.deciderLeases.insert execution lease }
        { u with deciderLeases := u.deciderLeases.insert execution lease } :=
    fun lease => { h with lease := by simp }
  unfold Inner.takeDeciderLease
  rw [h.check binding]
  cases s.check binding execution with
  | error refused => exact ⟨rfl, h⟩
  | ok _ =>
    dsimp only
    rw [h.lease]
    cases s.deciderLeases[execution]? with
    | none => exact ⟨rfl, hgrant _⟩
    | some lease =>
      dsimp only
      split
      · exact ⟨rfl, hgrant _⟩
      · exact ⟨rfl, h⟩

theorem SameAt.releaseDeciderLease (h : SameAt execution s u) (holder : String)
    (now : OffsetDateTime) :
    (u.releaseDeciderLease binding execution holder now).1 =
        (s.releaseDeciderLease binding execution holder now).1 ∧
      SameAt execution (s.releaseDeciderLease binding execution holder now).2
        (u.releaseDeciderLease binding execution holder now).2 := by
  unfold Inner.releaseDeciderLease
  rw [h.check binding]
  cases s.check binding execution with
  | error refused => exact ⟨rfl, h⟩
  | ok _ =>
    simp only [h.lease]
    split
    · exact ⟨rfl, { h with lease := by simp }⟩
    · exact ⟨rfl, h⟩

theorem SameAt.heartbeat (h : SameAt key.executionId s u) (owner : String) (now : OffsetDateTime) :
    (u.heartbeat binding key owner now).1 = (s.heartbeat binding key owner now).1 ∧
      SameAt key.executionId (s.heartbeat binding key owner now).2
        (u.heartbeat binding key owner now).2 := by
  unfold Inner.heartbeat
  rw [h.check binding]
  cases s.check binding key.executionId with
  | error refused => exact ⟨rfl, h⟩
  | ok _ =>
    dsimp only
    rw [h.attempts key rfl]
    cases s.attempts[key]? with
    | none => exact ⟨rfl, h⟩
    | some row =>
      dsimp only
      split
      · exact ⟨rfl, h⟩
      · exact ⟨rfl, h.attempt key _⟩

/-! ## Operations that name an execution -/

theorem SameAt.timersOf (h : SameAt execution s u) (hs : s.Filed) (hu : u.Filed) :
    (BTreeMap.values u.timers).filter (fun timer => timer.execution == execution) =
      (BTreeMap.values s.timers).filter (fun timer => timer.execution == execution) := by
  have hfiled : ∀ {t : Inner}, t.Filed →
      (BTreeMap.values t.timers).filter (fun timer => timer.execution == execution) =
        BTreeMap.values (t.timers.filter fun key _ => key.execution == execution) :=
    fun ht => (BTreeMap.values_filter ht.timers fun key => key.execution == execution).symm
  rw [hfiled hs, hfiled hu]
  congr 1
  apply Std.ExtTreeMap.ext_getElem?
  intro key
  rw [Table.getElem?_filter u.timers fun key => key.execution == execution,
    Table.getElem?_filter s.timers fun key => key.execution == execution]
  split
  · rename_i hkey
    exact h.timers key (by simpa using hkey)
  · rfl

/-- **Frame rule**: an operation that names an execution changes nothing of another. -/
theorem perform_frame {op : Operation} (hnames : op.names = some other)
    (hother : other ≠ execution) (hown : op.Own) (s : Inner) (size : WorkflowMessage → Nat) :
    SameAt execution s (op.perform size s binding).2 := by
  have hwrote := wrote_perform size binding s op
  generalize (op.perform size s binding).2 = after at hwrote ⊢
  cases hwrote with
  | nothing => rfl
  | append =>
    cases hnames
    exact append_frame hother hown s size _
  | prune => cases hnames
  | taken lease =>
    cases hnames
    exact lease_frame s ((getElem?_insert ..).trans (if_neg hother))
  | released =>
    cases hnames
    exact lease_frame s ((getElem?_erase ..).trans (if_neg hother))
  | attempt _ _ hkey => exact attempt_frame s ((hkey _ hnames).trans_ne hother) _
  | _ => exact { SameAt.refl execution s with }

/-- **Locality rule**: what an operation that names an execution answers, and what it leaves of
it, depends on what is held of that one. -/
theorem perform_congr {op : Operation} (hnames : op.names = some execution)
    (h : SameAt execution s u) (hs : s.Filed) (hu : u.Filed) (size : WorkflowMessage → Nat) :
    (op.perform size u binding).1 = (op.perform size s binding).1 ∧
      SameAt execution (op.perform size s binding).2 (op.perform size u binding).2 := by
  cases op with
  | append e request now =>
    cases hnames
    exact h.append size request now
  | takeDeciderLease e holder now =>
    cases hnames
    exact h.takeDeciderLease holder now
  | releaseDeciderLease e holder now =>
    cases hnames
    exact h.releaseDeciderLease holder now
  | heartbeat key owner now =>
    cases hnames
    exact h.heartbeat owner now
  | ownership e =>
    cases hnames
    exact ⟨h.about binding h.ownerOf, h⟩
  | load e =>
    cases hnames
    exact ⟨h.about binding (by rw [h.stream]), h⟩
  | loadPage e after limit =>
    cases hnames
    exact ⟨h.about binding (by rw [h.stream]), h⟩
  | timersOf e =>
    cases hnames
    exact ⟨h.about binding (by rw [h.timersOf hs hu]), h⟩
  | deciderLease e =>
    cases hnames
    exact ⟨h.about binding h.lease, h⟩
  | projection e =>
    cases hnames
    exact ⟨h.about binding h.projection, h⟩
  | recordedOutcome key =>
    cases hnames
    exact ⟨h.about binding (by rw [h.stream]), h⟩
  | attempt key =>
    cases hnames
    exact ⟨h.about binding (h.attempts key rfl), h⟩
  | _ => cases hnames

end Inner

end Aiwatcher.Store
