import Aiwatcher.Store.Tidy

/-!
# Aiwatcher.Store.Alike

One project's side of a shared memory store.  `Alike` relates a store many handles work
on to the store the handle of one project would have worked on by itself: what is on the
project's side is the same, and of everything else there is nothing.

What everybody else does keeps it on one side (`Alike.theirs`), and what the project's
handle does keeps it on both, with equal answers (`Alike.ours`).
-/

namespace Aiwatcher.Store

open Engine Library List Std

/-! ## Handles -/

/-- Operations through any handles, each with its answer. -/
def handles (size : WorkflowMessage → Nat) :
    Machine Inner (ScopeBinding × Operation) (Σ op : Operation, op.Reply) where
  step s act :=
    let (reply, after) := act.2.perform size s act.1
    some ([⟨act.2, reply⟩], after)

/-- The handle of one project. -/
def ProjectScope.handle (project : ProjectScope) : ScopeBinding := ⟨.project project⟩

/-- An operation through a project's handle whose execution, if it names one, is the
project's to touch, and still is afterwards. -/
def ours (size : WorkflowMessage → Nat) (project : ProjectScope) (s : Inner)
    (act : ScopeBinding × Operation) : Bool :=
  act.1 == project.handle && act.2.names.all fun e =>
    s.admits act.1 e && (act.2.perform size s act.1).2.admits act.1 e

namespace Inner

variable {project : ProjectScope} {s u : Inner} {binding : ScopeBinding} {execution : String}
  {size : WorkflowMessage → Nat}

/-! ## Two stores that look alike -/

/-- What one project sees of a store is all there is of another. -/
structure Alike (project : ProjectScope) (s u : Inner) : Prop where
  tidy : u.Tidy
  here : ∀ e, s.admits project.handle e = true → SameAt e s u
  elsewhere : ∀ e, s.admits project.handle e = false → Blank e u
  outbox : u.outbox = s.outbox.filter fun row => s.admitsPartition project.handle row.partitionKey

theorem handle_eq_of_admits (hholds : s.holds execution = true)
    (hproject : s.admits project.handle execution = true)
    (hbinding : s.admits binding execution = true) : binding = project.handle := by
  cases binding with
  | mk scope =>
    cases howner : s.ownerOf execution with
    | none => simp [Inner.admits, ProjectScope.handle, howner, hholds, ScopeBinding.admits] at hproject
    | some owner =>
      simp only [Inner.admits, ProjectScope.handle, howner, ScopeBinding.admits,
        beq_iff_eq] at hproject hbinding ⊢
      cases scope with
      | global => simp at hbinding
      | project bound =>
        simp only [beq_iff_eq] at hbinding
        rw [← hproject, ← hbinding]

theorem admits_of_blank (h : Blank execution s) : s.admits binding execution = true := by
  cases binding with
  | mk scope => cases scope <;> simp [Inner.admits, ownerOf, holds, h.ownership, h.stream,
      ScopeBinding.admits]

variable {before : OffsetDateTime} {e : String} {limit : Nat} {now : OffsetDateTime}
  {op : Operation} {request : AppendRequest} {s' : Inner} {visits : List String}

section

variable (h : Alike project s u)

include h

theorem Alike.admits (hadmits : s.admits project.handle e = true) :
    u.admits project.handle e = true := by
  rw [(h.here e hadmits).admits, hadmits]

theorem Alike.admitsPartition {k : String} (hadmits : s.admitsPartition project.handle k = true) :
    u.admitsPartition project.handle k = true := by
  obtain ⟨e, he, hside⟩ := (Option.any_eq_true ..).mp hadmits
  exact (Option.any_eq_true ..).mpr ⟨e, he, h.admits hside⟩

theorem Alike.attempts :
    u.attempts = s.attempts.filter fun key _ => s.admits project.handle key.executionId := by
  apply ExtTreeMap.ext_getElem?
  intro key
  rw [Table.getElem?_filter s.attempts fun key => s.admits project.handle key.executionId]
  cases hside : s.admits project.handle key.executionId with
  | true => simpa using (h.here _ hside).attempts key rfl
  | false => simpa using (h.elsewhere _ hside).attempts key rfl

theorem Alike.timers :
    u.timers = s.timers.filter fun key _ => s.admits project.handle key.execution := by
  apply ExtTreeMap.ext_getElem?
  intro key
  rw [Table.getElem?_filter s.timers fun key => s.admits project.handle key.execution]
  cases hside : s.admits project.handle key.execution with
  | true => simpa using (h.here _ hside).timers key rfl
  | false => simpa using (h.elsewhere _ hside).timers key rfl

end

/-! ### What a search finds -/

theorem filter_kept {α : Type} {kept kept' : α → Bool}
    (h : ∀ a, kept a = true → kept' a = true) (found : List α) (wanted : α → Bool) :
    (found.filter kept).filter (fun a => wanted a && kept' a) =
      found.filter fun a => wanted a && kept a := by
  rw [filter_filter]
  refine filter_congr fun a _ => ?_
  cases hkept : kept a with
  | true => simp [h a hkept]
  | false => simp

theorem Alike.mine (h : Alike project s u) (hs : s.Filed) :
    u.mine project.handle = s.mine project.handle := by
  unfold Inner.mine
  rw [h.attempts, BTreeMap.values_filter hs.attempts fun key =>
    s.admits project.handle key.executionId]
  have hkept := filter_kept (fun (row : AttemptRow) => h.admits (e := row.key.executionId))
    (BTreeMap.values s.attempts) (fun _ => true)
  simpa using hkept

theorem Alike.dueTimers (h : Alike project s u) (hs : s.Filed) (now : OffsetDateTime)
    (limit : Nat) :
    u.dueTimers project.handle now limit = s.dueTimers project.handle now limit := by
  unfold Inner.dueTimers
  have hvalues := BTreeMap.values_filter hs.timers fun key => s.admits project.handle key.execution
  rw [h.timers, hvalues]
  congr 2
  exact filter_kept (fun (timer : Timer) => h.admits (e := timer.execution))
    (BTreeMap.values s.timers) fun timer => timer.isDue now

theorem Alike.pendingOutbox (h : Alike project s u) (limit : Nat) :
    u.pendingOutbox project.handle limit = s.pendingOutbox project.handle limit := by
  unfold Inner.pendingOutbox
  rw [h.outbox]
  congr 1
  exact filter_kept (fun (row : OutboxMessage) => h.admitsPartition (k := row.partitionKey))
    s.outbox fun row => row.publishedAt.isNone

/-! ## What everybody else does -/

theorem admitsPartition_partitionOf (s : Inner) (binding : ScopeBinding) (e : String) :
    s.admitsPartition binding (partitionOf e) = s.admits binding e := by
  simp [Inner.admitsPartition]

theorem admitsPartition_congr (h : ∀ e, s'.admits binding e = s.admits binding e) (k : String) :
    s'.admitsPartition binding k = s.admitsPartition binding k := by
  simp only [Inner.admitsPartition, h]

theorem Alike.same (h : Alike project s u) (hsame : ∀ e, SameAt e s s')
    (houtbox : s'.outbox = s.outbox) : Alike project s' u where
  tidy := h.tidy
  here e he := (hsame e).symm.trans (h.here e ((hsame e).admits _ ▸ he))
  elsewhere e he := h.elsewhere e ((hsame e).admits _ ▸ he)
  outbox := by
    rw [houtbox, h.outbox]
    exact filter_congr fun row _ =>
      (admitsPartition_congr (fun e => (hsame e).admits _) row.partitionKey).symm

/-- One execution was changed, which is on another side by now and was not on this one while
it had a stream. -/
theorem Alike.moved (h : Alike project s u) (htidy : s.Tidy) (rows : List OutboxMessage)
    (hframe : ∀ e, e ≠ execution → SameAt e s s')
    (hside : s'.admits project.handle execution = false)
    (hfresh : s.admits project.handle execution = true → s.holds execution = false)
    (houtbox : s'.outbox = s.outbox ++ rows)
    (hrows : ∀ row ∈ rows, row.partitionKey = partitionOf execution) : Alike project s' u where
  tidy := h.tidy
  here e he := by
    have hne : e ≠ execution := fun heq => by simp [heq, hside] at he
    exact (hframe e hne).symm.trans (h.here e ((hframe e hne).admits _ ▸ he))
  elsewhere e he := by
    by_cases heq : e = execution
    · subst heq
      cases hbefore : s.admits project.handle e with
      | true => exact (htidy.blank e (hfresh hbefore)).of_same (h.here e hbefore)
      | false => exact h.elsewhere e hbefore
    · exact h.elsewhere e ((hframe e heq).admits _ ▸ he)
  outbox := by
    have hadded : rows.filter (fun row =>
        s'.admitsPartition project.handle row.partitionKey) = [] := by
      rw [filter_eq_nil_iff]
      intro row hrow
      rw [hrows row hrow, admitsPartition_partitionOf, hside]
      simp
    rw [houtbox, filter_append, hadded, append_nil, h.outbox]
    refine filter_congr fun row hrow => ?_
    obtain ⟨-, e, hkey, hholds⟩ := htidy.outbox row hrow
    rw [hkey, admitsPartition_partitionOf, admitsPartition_partitionOf]
    by_cases heq : e = execution
    · subst heq
      rw [hside]
      cases hbefore : s.admits project.handle e with
      | true => simp [hfresh hbefore] at hholds
      | false => rfl
    · exact ((hframe e heq).admits _).symm

theorem check_eq_error (h : s.admits binding execution = false) :
    s.check binding execution = .error (binding.refusal execution (s.ownerOf execution)) := by
  simp only [Inner.check, ScopeBinding.check, ite_eq_right_iff]
  intro hadmits
  simp [Inner.admits, hadmits] at h

/-- An operation that names an execution, an append apart, moves nothing between sides. -/
theorem perform_sides (hnames : op.names = some e)
    (happend : ∀ request now, op ≠ .append e request now) :
    (op.perform size s binding).2.streams = s.streams ∧
      (op.perform size s binding).2.ownership = s.ownership ∧
      (op.perform size s binding).2.outbox = s.outbox := by
  have hwrote := wrote_perform size binding s op
  generalize (op.perform size s binding).2 = after at hwrote ⊢
  cases hwrote with
  | append =>
    cases hnames
    exact absurd rfl (happend _ _)
  | prune | published => cases hnames
  | _ => exact ⟨rfl, rfl, rfl⟩

theorem perform_admits (hnames : op.names = some e)
    (happend : ∀ request now, op ≠ .append e request now) (side : ScopeBinding) (e' : String) :
    (op.perform size s binding).2.admits side e' = s.admits side e' := by
  have hstreams : (op.perform size s binding).2.streams = s.streams :=
    (perform_sides hnames happend).1
  have howner : (op.perform size s binding).2.ownership = s.ownership :=
    (perform_sides hnames happend).2.1
  simp only [Inner.admits, Inner.ownerOf, Inner.holds, Inner.stream, hstreams, howner]

/-- An operation that is refused, or finds nothing of its execution, changes nothing. -/
theorem perform_refused (hnames : op.names = some e)
    (happend : ∀ request now, op ≠ .append e request now) (hpromised : s.Promised (binding, op))
    (h : s.admits binding e = false ∨ Blank e s) : (op.perform size s binding).2 = s := by
  cases op with
  | append e request now =>
    cases hnames
    exact absurd rfl (happend request now)
  | takeDeciderLease e holder now =>
    cases hnames
    have hadmits : s.admits binding e = false := h.resolve_right fun hblank => by
      have hholds : s.holds e = true := hpromised
      simp [Inner.holds, hblank.stream] at hholds
    simp only [Operation.perform, WorkflowStore.takeDeciderLease, Inner.takeDeciderLease,
      check_eq_error hadmits]
  | releaseDeciderLease e holder now =>
    cases hnames
    simp only [Operation.perform, WorkflowStore.releaseDeciderLease, Inner.releaseDeciderLease]
    rcases h with hadmits | hblank
    · simp only [check_eq_error hadmits]
    · split
      · rfl
      · simp [hblank.lease]
  | heartbeat key owner now =>
    cases hnames
    simp only [Operation.perform, WorkflowStore.heartbeat, Inner.heartbeat]
    rcases h with hadmits | hblank
    · simp only [check_eq_error hadmits]
    · split
      · rfl
      · simp [hblank.attempts key rfl]
  | ownership | load | loadPage | timersOf | deciderLease | projection | recordedOutcome
  | attempt => rfl
  | _ => cases hnames

/-! ### An append elsewhere -/

theorem ownerOf_commit (establishing : Option ExecutionOwnership) (request : AppendRequest)
    (now : OffsetDateTime) : (s.commit execution establishing request now).ownerOf execution =
      establishing.or (s.ownerOf execution) :=
  (getElem?_ownership_commit ..).trans (if_pos rfl)

theorem holds_eq (s : Inner) (execution : String) :
    s.holds execution = !((s.stream execution).length == 0) := by
  cases hs : s.stream execution <;> simp [Inner.holds, hs]

theorem admits_of_appending {establishing written : Option ExecutionOwnership}
    (h : binding.appending execution establishing (s.ownerOf execution)
      ((s.stream execution).length == 0) = .ok written) : s.admits binding execution = true := by
  rw [Inner.admits, holds_eq]
  exact (ScopeBinding.appending_cases h).1

theorem eq_handle_of_commit
    {establishing : Option ExecutionOwnership}
    (hscope : binding.appending execution request.ownership (s.ownerOf execution)
      ((s.stream execution).length == 0) = .ok establishing)
    (hside : (s.commit execution establishing request now).admits project.handle execution = true) :
    binding = project.handle := by
  have hadmits := admits_of_appending hscope
  simp only [Inner.admits, holds_commit, ownerOf_commit] at hside
  obtain ⟨-, rfl | ⟨owner, rfl, -, -, -, hbound⟩⟩ := ScopeBinding.appending_cases hscope
  · rw [Option.none_or] at hside
    cases howner : s.ownerOf execution with
    | none => simp [howner, ProjectScope.handle, ScopeBinding.admits] at hside
    | some owner =>
      have hholds : (s.commit execution none request now).holds execution = true :=
        holds_commit ..
      refine handle_eq_of_admits hholds ?_ ?_
      · simpa only [Inner.admits, holds_commit, ownerOf_commit, Option.none_or] using hside
      · rw [Inner.admits, howner] at hadmits
        rw [Inner.admits, ownerOf_commit, Option.none_or, howner]
        cases binding with
        | mk scope =>
          cases scope with
          | global => simp [ScopeBinding.admits] at hadmits
          | project bound => simpa [ScopeBinding.admits] using hadmits
  · have hsame : owner.scope = project := by
      simpa [ProjectScope.handle, ScopeBinding.admits] using hside
    cases binding with
    | mk scope => simp_all [ProjectScope.handle]

theorem admits_commit_of_holds
    {establishing : Option ExecutionOwnership} (hholds : s.holds execution = true)
    (hside : s.admits project.handle execution = true)
    (hscope : binding.appending execution request.ownership (s.ownerOf execution)
      ((s.stream execution).length == 0) = .ok establishing) :
    (s.commit execution establishing request now).admits project.handle execution = true := by
  obtain ⟨-, rfl | ⟨owner, -, -, -, hempty, -⟩⟩ := ScopeBinding.appending_cases hscope
  · rw [Inner.admits, holds_commit, ownerOf_commit, Option.none_or]
    rwa [Inner.admits, hholds] at hside
  · rw [holds_iff] at hholds
    simp_all

theorem Alike.append_theirs (h : Alike project s u) (htidy : s.Tidy)
    (hpromised : s.Promised (binding, .append execution request now))
    (hours : ours size project s (binding, .append execution request now) = false) :
    Alike project (s.append binding size execution request now).2 u := by
  have hmoved : s.admits binding execution = true → binding = project.handle →
      (s.append binding size execution request now).2.admits project.handle execution = false := by
    intro hadmits heq
    subst heq
    simpa [ours, Operation.names, hadmits, Operation.perform, WorkflowStore.append] using hours
  have happend := appending_append size s binding execution request now
  generalize (s.append binding size execution request now).1 = reply,
    (s.append binding size execution request now).2 = after at happend hmoved ⊢
  cases happend with
  | tooLarge => exact h
  | outOfScope => exact h.same (fun e => same_reach e execution s) rfl
  | duplicate => exact h.same (fun e => same_reach e execution s) rfl
  | conflict => exact h.same (fun e => same_reach e execution s) rfl
  | @written establishing _ hscope _ _ =>
    have hadmits := admits_of_appending hscope
    have hside : (s.commit execution establishing request now).admits project.handle execution =
        false := by
      cases hside : (s.commit execution establishing request now).admits project.handle
          execution with
      | false => rfl
      | true => rw [← hside, hmoved hadmits (eq_handle_of_commit hscope hside)]
    refine h.moved htidy request.outbox (fun e he => commit_frame _ now (Ne.symm he) hpromised.1 s) hside ?_
      rfl hpromised.1.outbox
    intro hbefore
    cases hholds : s.holds execution with
    | false => rfl
    | true =>
      have hkept : (s.commit execution establishing request now).admits project.handle execution =
          true := admits_commit_of_holds hholds hbefore hscope
      rw [hkept] at hside
      cases hside

/-! ### Everything else elsewhere -/

theorem admits_found {filter : ClaimFilter} {found : AttemptRow}
    (h : (BTreeMap.values s.attempts).find? (fun row => row.isClaimable now && filter.matches row &&
      s.admits binding row.key.executionId) = some found) :
    s.admits binding found.key.executionId = true := by
  have hwanted := find?_some h
  simp only [Bool.and_eq_true] at hwanted
  exact hwanted.2

theorem Alike.claim_theirs (h : Alike project s u) (htidy : s.Tidy)
    (hbinding : binding ≠ project.handle) (filter : ClaimFilter) (owner : String)
    (now : OffsetDateTime) : Alike project (s.claimAttempt binding filter owner now).2 u := by
  unfold Inner.claimAttempt
  split
  · exact h
  · rename_i found hfound
    split
    · exact h
    · rename_i row hrow
      have hholds := htidy.holds_of_attempt hrow
      have hside : s.admits project.handle found.key.executionId = false := by
        cases hside : s.admits project.handle found.key.executionId with
        | false => rfl
        | true => exact absurd (handle_eq_of_admits hholds hside (admits_found hfound)) hbinding
      exact h.moved htidy [] (fun e he => attempt_frame s (Ne.symm he) _) hside
        (fun hbefore => by simp [hside] at hbefore) (append_nil _).symm (by simp)

theorem same_publish (s : Inner) (binding : ScopeBinding) (ids : List String) (e : String) :
    SameAt e s (s.markPublished binding ids) :=
  ⟨rfl, rfl, rfl, rfl, rfl, fun _ _ => rfl, fun _ _ => rfl⟩

/-- A publisher on another side drops no row of this one: no two executions share an id. -/
theorem not_doomed (htidy : s.Tidy) (hbinding : binding ≠ project.handle) {ids : List String}
    {row : OutboxMessage} (hrow : row ∈ s.outbox)
    (hside : s.admitsPartition project.handle row.partitionKey = true) :
    row.messageId ∉ (s.outbox.filter fun row => ids.contains row.messageId &&
      s.admitsPartition binding row.partitionKey).map (·.messageId) := by
  intro hmem
  obtain ⟨other, hother, hid⟩ := mem_map.mp hmem
  obtain ⟨hheld, hwanted⟩ := mem_filter.mp hother
  have hkey := htidy.ids row hrow other hheld hid
  obtain ⟨-, e, hpartition, hholds⟩ := htidy.outbox row hrow
  rw [hpartition, admitsPartition_partitionOf] at hside
  rw [hkey, hpartition, admitsPartition_partitionOf, Bool.and_eq_true] at hwanted
  exact hbinding (handle_eq_of_admits hholds hside hwanted.2)

section

variable (h : Alike project s u)

include h

theorem Alike.publish_theirs (htidy : s.Tidy) (hbinding : binding ≠ project.handle)
    (ids : List String) :
    Alike project (s.markPublished binding ids) u where
  tidy := h.tidy
  here e he := (same_publish s binding ids e).symm.trans (h.here e he)
  elsewhere e he := h.elsewhere e he
  outbox := by
    have hsides : ∀ k, (s.markPublished binding ids).admitsPartition project.handle k =
        s.admitsPartition project.handle k :=
      admitsPartition_congr fun e => (same_publish s binding ids e).admits project.handle
    simp only [hsides]
    rw [h.outbox, Inner.markPublished, filter_filter]
    refine filter_congr fun row hrow => ?_
    cases hside : s.admitsPartition project.handle row.partitionKey with
    | false => rfl
    | true => simpa using not_doomed htidy hbinding hrow hside

theorem Alike.prune_theirs (htidy : s.Tidy) (hbinding : binding ≠ project.handle)
    (hpromised : s.Promised (binding, .prune before limit visits)) :
    Alike project (s.prune binding before limit visits).2 u := by
  -- what it forgets is on another side, and nobody's afterwards
  have hside : ∀ e ∈ s.doomed binding before limit visits,
      s.admits project.handle e = false ∨ s.holds e = false := by
    intro e hdoomed
    have hmay : s.mayPrune binding before e = true :=
      (mem_filter.mp (mem_of_mem_take hdoomed)).2
    obtain ⟨run, -, hrun⟩ := (Option.any_eq_true ..).mp hmay
    simp only [Bool.and_eq_true] at hrun
    cases hproject : s.admits project.handle e with
    | false => exact .inl rfl
    | true =>
      cases hholds : s.holds e with
      | false => exact .inr rfl
      | true => exact absurd (handle_eq_of_admits hholds hproject hrun.1.1) hbinding
  have hblank : ∀ e ∈ s.doomed binding before limit visits, Blank e u := by
    intro e hdoomed
    rcases hside e hdoomed with hproject | hholds
    · exact h.elsewhere e hproject
    · cases hproject : s.admits project.handle e with
      | true => exact (htidy.blank e hholds).of_same (h.here e hproject)
      | false => exact h.elsewhere e hproject
  exact {
    tidy := h.tidy
    here := fun e he => by
      by_cases hdoomed : e ∈ s.doomed binding before limit visits
      · exact (blank_prune htidy hdoomed hpromised).same (hblank e hdoomed)
      · have hframe := prune_frame hdoomed
        exact hframe.symm.trans (h.here e (hframe.admits _ ▸ he))
    elsewhere := fun e he => by
      by_cases hdoomed : e ∈ s.doomed binding before limit visits
      · exact hblank e hdoomed
      · exact h.elsewhere e ((prune_frame hdoomed).admits _ ▸ he)
    outbox := by
      show u.outbox = s.outbox.filter _
      rw [h.outbox]
      refine filter_congr fun row hrow => ?_
      obtain ⟨hnew, e, hkey, -⟩ := htidy.outbox row hrow
      have hspared : e ∉ s.doomed binding before limit visits := fun hdoomed =>
        unpublished_of_doomed hdoomed row hrow hnew (by rw [hkey, executionOf_partitionOf])
      rw [hkey, admitsPartition_partitionOf, admitsPartition_partitionOf,
        (prune_frame hspared).admits] }

theorem Alike.slots_theirs (slots : BTreeMap SlotKey SlotRecord) :
    Alike project { s with slots := slots } u :=
  h.same (fun _ => ⟨rfl, rfl, rfl, rfl, rfl, fun _ _ => rfl, fun _ _ => rfl⟩) rfl

/-- **What everybody else does** leaves a project's side alone. -/
theorem Alike.theirs (htidy : s.Tidy) (hpromised : s.Promised (binding, op))
    (hours : ours size project s (binding, op) = false) :
    Alike project (op.perform size s binding).2 u := by
  cases hnames : op.names with
  | some e =>
    by_cases happend : ∃ request now, op = .append e request now
    · obtain ⟨request, now, rfl⟩ := happend
      exact h.append_theirs htidy hpromised hours
    · have hother : ∀ request now, op ≠ .append e request now := fun request now heq =>
        happend ⟨request, now, heq⟩
      have hsides : ∀ side e', (op.perform size s binding).2.admits side e' = s.admits side e' :=
        perform_admits hnames hother
      have hown : op.Own := by
        cases op with
        | append e' request now => exact hpromised.1
        | _ => trivial
      cases hside : s.admits project.handle e with
      | false =>
        exact h.moved htidy []
          (fun e' he' => perform_frame hnames (Ne.symm he') hown s size)
          ((hsides _ _).trans hside) (fun hbefore => by simp [hside] at hbefore)
          ((perform_sides hnames hother).2.2.trans (append_nil _).symm) (by simp)
      | true =>
        have hrefused : s.admits binding e = false ∨ Blank e s := by
          cases hholds : s.holds e with
          | false => exact .inr (htidy.blank e hholds)
          | true =>
            cases hadmits : s.admits binding e with
            | false => exact .inl rfl
            | true =>
              have hbinding := handle_eq_of_admits hholds hside hadmits
              subst hbinding
              simp [ours, hnames, hsides, hside] at hours
        rw [perform_refused hnames hother hpromised hrefused]
        exact h
  | none =>
    have hbinding : binding ≠ project.handle := fun heq => by simp [ours, hnames, heq] at hours
    cases op with
    | claimAttempt filter owner now => exact h.claim_theirs htidy hbinding filter owner now
    | markPublished ids => exact h.publish_theirs htidy hbinding ids
    | prune before limit visits => exact h.prune_theirs htidy hbinding hpromised
    | admitSlot request =>
      show Alike project (s.admitSlot binding request).2 u
      unfold Inner.admitSlot
      dsimp only
      split
      · exact h
      · split
        · exact h
        · split
          · exact h
          · exact h.slots_theirs _
    | settleSlot key owner settlement now =>
      show Alike project (s.settleSlot binding key owner settlement now).2 u
      unfold Inner.settleSlot
      split
      · exact h
      · split
        · exact h
        · split
          · exact h
          · exact h.slots_theirs _
    | advanceCheckpoint processor cursor =>
      show Alike project (s.advanceCheckpoint binding processor cursor).2 u
      unfold Inner.advanceCheckpoint
      split
      · exact h
      · exact h.same (fun _ => ⟨rfl, rfl, rfl, rfl, rfl, fun _ _ => rfl, fun _ _ => rfl⟩) rfl
    | dueTimers | pendingOutbox | recentSlots | projectScopes | checkpoint | unclaimedAttempts
    | claimableAttempts => exact h
    | _ => cases hnames

/-! ## What the project's handle does -/

theorem Alike.both {s' u' : Inner} (htidy : u'.Tidy)
    (hframe : ∀ e, e ≠ execution → SameAt e s s') (hframe' : ∀ e, e ≠ execution → SameAt e u u')
    (hsame : SameAt execution s' u') (hside : s'.admits project.handle execution = true)
    (houtbox : u'.outbox = s'.outbox.filter fun row =>
      s'.admitsPartition project.handle row.partitionKey) : Alike project s' u' where
  tidy := htidy
  here e he := by
    by_cases heq : e = execution
    · exact heq ▸ hsame
    · have hbefore := h.here e ((hframe e heq).admits _ ▸ he)
      exact ((hframe e heq).symm.trans hbefore).trans (hframe' e heq)
  elsewhere e he := by
    have heq : e ≠ execution := fun heq => by simp [heq, hside] at he
    exact (h.elsewhere e ((hframe e heq).admits _ ▸ he)).of_same (hframe' e heq)
  outbox := houtbox

theorem Alike.mayPrune (before : OffsetDateTime) (e : String) :
    u.mayPrune project.handle before e = s.mayPrune project.handle before e := by
  unfold Inner.mayPrune
  cases hside : s.admits project.handle e with
  | false =>
    rw [(h.elsewhere e hside).projection]
    cases s.projections[e]? <;> simp
  | true =>
    have hsame := h.here e hside
    have hwaiting : (unpublished u.outbox).contains (partitionOf e) =
        (unpublished s.outbox).contains (partitionOf e) := by
      rw [Bool.eq_iff_iff]
      simp only [contains_iff_mem, unpublished, mem_map, mem_filter, h.outbox]
      constructor
      · rintro ⟨row, ⟨⟨hrow, -⟩, hnew⟩, hkey⟩
        exact ⟨row, ⟨hrow, hnew⟩, hkey⟩
      · rintro ⟨row, ⟨hrow, hnew⟩, hkey⟩
        exact ⟨row, ⟨⟨hrow, by rw [hkey, admitsPartition_partitionOf, hside]⟩, hnew⟩, hkey⟩
    rw [hsame.projection, hsame.admits, hside, hsame.stream, hwaiting]

theorem Alike.doomed (before : OffsetDateTime) (limit : Nat) (visits : List String) :
    u.doomed project.handle before limit visits = s.doomed project.handle before limit visits := by
  simp only [Inner.doomed, h.mayPrune]

end

theorem admits_of_doomed (hdoomed : execution ∈ s.doomed binding before limit visits) :
    s.admits binding execution = true := by
  have hmay : s.mayPrune binding before execution = true :=
    (mem_filter.mp (mem_of_mem_take hdoomed)).2
  obtain ⟨run, -, hrun⟩ := (Option.any_eq_true ..).mp hmay
  simp only [Bool.and_eq_true] at hrun
  exact hrun.1.1

/-- What the callers of the shared store see to, they see to for the project's own. -/
theorem Alike.promised (h : Alike project s u) (hpromised : s.Promised (project.handle, op))
    (hours : ours size project s (project.handle, op) = true) :
    u.Promised (project.handle, op) := by
  cases op with
  | append execution request now =>
    obtain ⟨hown, hnew, hids⟩ := hpromised
    refine ⟨hown, hnew, fun row hrow held hheld => hids row hrow held ?_⟩
    rw [h.outbox] at hheld
    exact mem_of_mem_filter hheld
  | takeDeciderLease execution holder now =>
    have hside : s.admits project.handle execution = true := by
      simp only [ours, Operation.names, Option.all_some, Bool.and_eq_true] at hours
      exact hours.2.1
    show u.holds execution = true
    rw [(h.here execution hside).holds]
    exact hpromised
  | prune before limit visits =>
    intro e hdoomed
    rw [h.doomed] at hdoomed
    obtain ⟨htimers, hlease⟩ := hpromised e hdoomed
    refine ⟨fun key timer htimer => htimers key timer ?_, ?_⟩
    · rw [h.timers, Table.getElem?_filter s.timers fun key =>
        s.admits project.handle key.execution] at htimer
      split at htimer
      · exact htimer
      · cases htimer
    · rw [(h.here e (admits_of_doomed hdoomed)).lease, hlease]
  | _ => trivial

theorem Alike.names_ours (h : Alike project s u) (htidy : s.Tidy)
    (hnames : op.names = some e) (hpromised : s.Promised (project.handle, op))
    (hours : ours size project s (project.handle, op) = true)
    (houtbox : (op.perform size u project.handle).2.outbox =
      (op.perform size s project.handle).2.outbox.filter fun row =>
        (op.perform size s project.handle).2.admitsPartition project.handle row.partitionKey) :
    (op.perform size u project.handle).1 = (op.perform size s project.handle).1 ∧
      Alike project (op.perform size s project.handle).2 (op.perform size u project.handle).2 := by
  have hown : op.Own := by
    cases op with
    | append e' request now => exact hpromised.1
    | _ => trivial
  have hpromised' := h.promised hpromised hours
  simp only [ours, hnames, Option.all_some, Bool.and_eq_true, beq_self_eq_true, true_and] at hours
  obtain ⟨hreply, hsame⟩ : (op.perform size u project.handle).1 =
      (op.perform size s project.handle).1 ∧ SameAt e (op.perform size s project.handle).2
        (op.perform size u project.handle).2 :=
    perform_congr hnames (h.here e hours.1) htidy.filed h.tidy.filed size
  exact ⟨hreply, h.both (h.tidy.perform hpromised' size)
    (fun e' he' => perform_frame hnames (Ne.symm he') hown s size)
    (fun e' he' => perform_frame hnames (Ne.symm he') hown u size) hsame hours.2 houtbox⟩

/-- Two stores that hold the same of an execution take the same rows for it. -/
theorem append_outbox (h : SameAt execution s u) (binding : ScopeBinding) (size : WorkflowMessage → Nat)
    (request : AppendRequest) (now : OffsetDateTime) :
    ∃ rows, (∀ row ∈ rows, row ∈ request.outbox) ∧
      (s.append binding size execution request now).2.outbox = s.outbox ++ rows ∧
      (u.append binding size execution request now).2.outbox = u.outbox ++ rows := by
  have hnothing : ∀ s' u' : Inner, s'.outbox = s.outbox → u'.outbox = u.outbox →
      ∃ rows, (∀ row ∈ rows, row ∈ request.outbox) ∧ s'.outbox = s.outbox ++ rows ∧
        u'.outbox = u.outbox ++ rows := by
    intro s' u' hs hu
    exact ⟨[], by simp, by simp [hs], by simp [hu]⟩
  unfold Inner.append
  cases request.checkPayloads size with
  | error refused => exact hnothing _ _ rfl rfl
  | ok _ =>
    simp only [h.stream, h.ownerOf]
    cases binding.appending execution request.ownership (s.ownerOf execution)
        ((s.stream execution).length == 0) with
    | error refused => exact hnothing _ _ rfl rfl
    | ok establishing =>
      simp only [h.seenAt]
      cases s.seenAt execution request.inputId with
      | some seen => exact hnothing _ _ rfl rfl
      | none =>
        dsimp only
        cases request.expectedVersion.check (s.stream execution).length with
        | error conflict => exact hnothing _ _ rfl rfl
        | ok _ => exact ⟨request.outbox, fun _ hrow => hrow, rfl, rfl⟩

theorem Alike.outbox_ours (h : Alike project s u) (hnames : op.names = some e)
    (hpromised : s.Promised (project.handle, op))
    (hours : ours size project s (project.handle, op) = true) :
    (op.perform size u project.handle).2.outbox =
      (op.perform size s project.handle).2.outbox.filter fun row =>
        (op.perform size s project.handle).2.admitsPartition project.handle row.partitionKey := by
  simp only [ours, hnames, Option.all_some, Bool.and_eq_true, beq_self_eq_true, true_and] at hours
  have hown : op.Own := by
    cases op with
    | append e' request now => exact hpromised.1
    | _ => trivial
  have hsides : ∀ k, (op.perform size s project.handle).2.admitsPartition project.handle k =
      s.admitsPartition project.handle k := admitsPartition_congr fun e' => by
    by_cases heq : e' = e
    · rw [heq, hours.1, hours.2]
    · exact (perform_frame hnames (Ne.symm heq) hown s size).admits _
  simp only [hsides]
  by_cases happend : ∃ request now, op = .append e request now
  · obtain ⟨request, now, rfl⟩ := happend
    obtain ⟨rows, hrows, hs, hu⟩ := append_outbox (h.here e hours.1) project.handle size
      request now
    have hkept : rows.filter (fun row => s.admitsPartition project.handle row.partitionKey) =
        rows := by
      rw [filter_eq_self]
      intro row hrow
      rw [hpromised.1.outbox row (hrows row hrow), admitsPartition_partitionOf, hours.1]
    show (u.append project.handle size e request now).2.outbox =
      (s.append project.handle size e request now).2.outbox.filter _
    rw [hs, hu, filter_append, hkept, h.outbox]
  · have hother : ∀ request now, op ≠ .append e request now := fun request now heq =>
      happend ⟨request, now, heq⟩
    rw [(perform_sides hnames hother).2.2, (perform_sides hnames hother).2.2, h.outbox]

theorem Alike.claim_ours (h : Alike project s u) (htidy : s.Tidy) (filter : ClaimFilter)
    (owner : String) (now : OffsetDateTime) :
    (u.claimAttempt project.handle filter owner now).1 =
        (s.claimAttempt project.handle filter owner now).1 ∧
      Alike project (s.claimAttempt project.handle filter owner now).2
        (u.claimAttempt project.handle filter owner now).2 := by
  have hsearch : ∀ store : Inner, (BTreeMap.values store.attempts).find? (fun row =>
      row.isClaimable now && filter.matches row &&
        store.admits project.handle row.key.executionId) =
      (store.mine project.handle).find? fun row => row.isClaimable now && filter.matches row := by
    intro store
    rw [Inner.mine, find?_filter]
    congr 1
    funext row
    cases store.admits project.handle row.key.executionId <;> simp
  have hpromised : u.Promised (project.handle, .claimAttempt filter owner now) := trivial
  have htidy' : (u.claimAttempt project.handle filter owner now).2.Tidy :=
    h.tidy.perform hpromised fun _ => 0
  simp only [Inner.claimAttempt, hsearch, h.mine htidy.filed] at htidy' ⊢
  cases hfound : (s.mine project.handle).find? (fun row =>
      row.isClaimable now && filter.matches row) with
  | none => exact ⟨rfl, h⟩
  | some found =>
    have hside : s.admits project.handle found.key.executionId = true :=
      (mem_filter.mp (mem_of_find?_eq_some hfound)).2
    have hsame := h.here _ hside
    simp only [hfound, hsame.attempts found.key rfl] at htidy' ⊢
    cases hrow : s.attempts[found.key]? with
    | none => exact ⟨rfl, h⟩
    | some row =>
      simp only [hrow] at htidy' ⊢
      exact ⟨trivial, h.both htidy' (fun e he => attempt_frame s (Ne.symm he) _)
        (fun e he => attempt_frame u (Ne.symm he) _) (hsame.attempt found.key _) hside h.outbox⟩

theorem Alike.publish_ours (h : Alike project s u) (ids : List String) :
    Alike project (s.markPublished project.handle ids) (u.markPublished project.handle ids) where
  tidy := by
    have hpromised : u.Promised (project.handle, .markPublished ids) := trivial
    exact h.tidy.perform hpromised fun _ => 0
  here e he := ((same_publish s project.handle ids e).symm.trans (h.here e he)).trans
    (same_publish u project.handle ids e)
  elsewhere e he := (h.elsewhere e he).of_same (same_publish u project.handle ids e)
  outbox := by
    have hsides : ∀ k, (s.markPublished project.handle ids).admitsPartition project.handle k =
        s.admitsPartition project.handle k :=
      admitsPartition_congr fun e => (same_publish s project.handle ids e).admits project.handle
    have hdoomed : u.outbox.filter (fun row => ids.contains row.messageId &&
        u.admitsPartition project.handle row.partitionKey) =
        s.outbox.filter fun row => ids.contains row.messageId &&
          s.admitsPartition project.handle row.partitionKey := by
      rw [h.outbox]
      exact filter_kept (fun (row : OutboxMessage) => h.admitsPartition (k := row.partitionKey))
        s.outbox fun row => ids.contains row.messageId
    simp only [hsides]
    simp only [Inner.markPublished, hdoomed]
    rw [h.outbox, filter_filter, filter_filter]
    exact filter_congr fun row _ => Bool.and_comm ..

theorem size_sub_filter (attempts : ClaimTable) (keep : AttemptKey → Bool) :
    attempts.size - (attempts.filter fun key _ => keep key).size =
      attempts.toList.countP fun entry => !keep entry.1 := by
  rw [← ExtTreeMap.length_toList, ← ExtTreeMap.length_toList,
    ExtTreeMap.toList_filter, ← countP_eq_length_filter,
    length_eq_countP_add_countP fun entry : AttemptKey × AttemptRow => keep entry.1]
  simp

theorem Alike.prune_ours (h : Alike project s u) (htidy : s.Tidy)
    (hpromised : s.Promised (project.handle, .prune before limit visits)) :
    (u.prune project.handle before limit visits).1 =
        (s.prune project.handle before limit visits).1 ∧
      Alike project (s.prune project.handle before limit visits).2
        (u.prune project.handle before limit visits).2 := by
  have hdoomed := h.doomed before limit visits
  have hours : ours (fun _ => 0) project s (project.handle, .prune before limit visits) = true := by
    simp [ours, Operation.names]
  have hpromised' := h.promised hpromised hours
  have hspared : ∀ e, e ∉ s.doomed project.handle before limit visits →
      SameAt e u (u.prune project.handle before limit visits).2 := fun e he =>
    prune_frame (hdoomed ▸ he)
  have hgone : ∀ e ∈ s.doomed project.handle before limit visits,
      Blank e (s.prune project.handle before limit visits).2 := fun e he =>
    blank_prune htidy he hpromised
  refine ⟨?_, {
    tidy := h.tidy.prune hpromised'
    here := fun e he => ?_
    elsewhere := fun e he => ?_
    outbox := ?_ }⟩
  · -- the rows it drops are all on this side
    have hcount : u.attempts.toList.countP (fun entry =>
        !!(s.doomed project.handle before limit visits).contains entry.1.executionId) =
        s.attempts.toList.countP fun entry =>
          !!(s.doomed project.handle before limit visits).contains entry.1.executionId := by
      rw [h.attempts, ExtTreeMap.toList_filter, countP_filter]
      refine countP_congr fun entry _ => ?_
      simp only [Bool.not_not, Bool.and_eq_true, contains_iff_mem]
      exact ⟨And.left, fun hmem => ⟨hmem, admits_of_doomed hmem⟩⟩
    simp only [Inner.prune, forget, hdoomed]
    rw [size_sub_filter u.attempts fun key =>
        !(s.doomed project.handle before limit visits).contains key.executionId,
      size_sub_filter s.attempts fun key =>
        !(s.doomed project.handle before limit visits).contains key.executionId, hcount]
  · by_cases hmem : e ∈ s.doomed project.handle before limit visits
    · exact (hgone e hmem).same (blank_prune h.tidy (hdoomed.symm ▸ hmem) hpromised')
    · have hframe := prune_frame hmem
      have hbefore := h.here e (hframe.admits _ ▸ he)
      exact (hframe.symm.trans hbefore).trans (hspared e hmem)
  · have hmem : e ∉ s.doomed project.handle before limit visits := fun hmem => by
      rw [admits_of_blank (hgone e hmem)] at he
      cases he
    exact (h.elsewhere e ((prune_frame hmem).admits _ ▸ he)).of_same (hspared e hmem)
  · show u.outbox = s.outbox.filter _
    rw [h.outbox]
    refine filter_congr fun row hrow => ?_
    obtain ⟨hnew, e, hkey, -⟩ := htidy.outbox row hrow
    have hmem : e ∉ s.doomed project.handle before limit visits := fun hmem =>
      unpublished_of_doomed hmem row hrow hnew (by rw [hkey, executionOf_partitionOf])
    rw [hkey, admitsPartition_partitionOf, admitsPartition_partitionOf, (prune_frame hmem).admits]

/-- **What the project's handle does** is answered alike and keeps the two alike. -/
theorem Alike.ours (h : Alike project s u) (htidy : s.Tidy)
    (hpromised : s.Promised (project.handle, op))
    (hours : ours size project s (project.handle, op) = true) :
    (op.perform size u project.handle).1 = (op.perform size s project.handle).1 ∧
      Alike project (op.perform size s project.handle).2 (op.perform size u project.handle).2 := by
  cases hnames : op.names with
  | some e =>
    exact h.names_ours htidy hnames hpromised hours (h.outbox_ours hnames hpromised hours)
  | none =>
    cases op with
    | dueTimers now limit => exact ⟨h.dueTimers htidy.filed now limit, h⟩
    | pendingOutbox limit => exact ⟨h.pendingOutbox limit, h⟩
    | markPublished ids => exact ⟨rfl, h.publish_ours ids⟩
    | claimAttempt filter owner now => exact h.claim_ours htidy filter owner now
    | unclaimedAttempts now =>
      exact ⟨congrArg (tallyUnclaimed · now) (h.mine htidy.filed), h⟩
    | claimableAttempts runtime now limit =>
      exact ⟨congrArg (claimableOf · runtime now limit) (h.mine htidy.filed), h⟩
    | prune before limit visits => exact h.prune_ours htidy hpromised
    -- a project's handle is refused what is the whole instance's
    | admitSlot | settleSlot | recentSlots | projectScopes | checkpoint | advanceCheckpoint =>
      exact ⟨rfl, h⟩
    | _ => cases hnames

end Inner

end Aiwatcher.Store
