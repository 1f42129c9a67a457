import Aiwatcher.Conversations.Swept

/-!
# Aiwatcher.Conversations.Resent

Recordings that die between two of their accesses, and what recording the turn again makes of what
they left.
-/

namespace Aiwatcher.Conversations

open Library Prog List Table Std

variable {reader : Reader} {store : Store} {c : String}

/-! ## Where a recording dies -/

/-- How many accesses it takes until the turn's record is written: the turn and the digest are
looked up, and its content is written before it. -/
def turnWritten : Nat := 4

/-- Until the head is read: a subject's marker is written before it. -/
def headRead (request : RecordTurnRequest) : Nat :=
  if request.policy.consent.subject ≠ "" then turnWritten + 2 else turnWritten + 1

/-- Until a turn that no shard lists is written to one. -/
def indexWritten (request : RecordTurnRequest) : Nat := headRead request + 2

/-- Until the head is written: a turn that is listed only now has its record written again. -/
def headWritten (request : RecordTurnRequest) (listed : Bool) : Nat :=
  if listed then headRead request + 1 else indexWritten request + 2

section

variable {policy : ArchivePolicy} {request : RecordTurnRequest} {now : OffsetDateTime}

/-- The record a recording writes first. -/
def firstRecord (reader : Reader) (store : Store) (policy : ArchivePolicy)
    (request : RecordTurnRequest) (now : OffsetDateTime) : ArchivedTurn :=
  archivedTurn reader policy request
    (store.turn request.conversationId (reader.turnId request.conversationId request.messageId))
    store.digests[reader.digest request.content]? now

variable {n : Nat}

theorem front_record_before (h : n < turnWritten) (c : String) :
    ((record reader policy request now).front n store).conversation c = store.conversation c := by
  unfold record
  cases admitTurn reader policy request with
  | error error => rw [front_pure]
  | ok u =>
    obtain rfl | rfl | rfl | rfl : n = 0 ∨ n = 1 ∨ n = 2 ∨ n = 3 := by
      rw [turnWritten] at h
      omega
    all_goals rfl

theorem accesses_listTurn (head : ConversationHead) (turn : ArchivedTurn) (store : Store) :
    (listTurn head turn).accesses store = if turn.indexShard.isSome then 0 else 3 := by
  unfold listTurn
  split
  · rfl
  · simp

/-- **Writing a turn** makes the accesses `headWritten` counts, but for what comes before it. -/
theorem accesses_writeTurn (request : RecordTurnRequest) (turn : ArchivedTurn)
    (previous : Option ArchivedTurn) (store : Store)
    (h : turn.policy.consent.subject = request.policy.consent.subject) :
    (writeTurn turn previous).accesses store + 3 = headWritten request turn.indexShard.isSome := by
  unfold writeTurn
  simp only [headWritten, indexWritten, headRead, turnWritten, ← h]
  by_cases hsubject : turn.policy.consent.subject = "" <;>
    by_cases hshard : turn.indexShard.isSome <;> simp [hsubject, hshard, accesses_listTurn]

theorem front_listTurn {α : Type} {head : ConversationHead} {turn : ArchivedTurn}
    (h : n < if turn.indexShard.isSome then 1 else 2)
    (change : ConversationHead × ArchivedTurn → Store → Store)
    (f : ConversationHead × ArchivedTurn → Prog Store α) :
    (listTurn head turn >>= fun listed => write (change listed) >>= fun _ => f listed).front n
      store = store := by
  unfold listTurn
  by_cases hshard : turn.indexShard.isSome
  · rw [if_pos hshard] at h ⊢
    obtain rfl : n = 0 := by omega
    rfl
  · rw [if_neg hshard] at h ⊢
    obtain rfl | rfl : n = 0 ∨ n = 1 := by omega
    all_goals rfl

theorem front_writeTurn {turn : ArchivedTurn} {previous : Option ArchivedTurn}
    (hsubject : turn.policy.consent.subject = request.policy.consent.subject)
    (h : n + turnWritten <
      if turn.indexShard.isSome then headWritten request true else indexWritten request)
    (c : String) : ((writeTurn turn previous).front (n + 1) store).conversation c =
      (store.putTurn turn).conversation c := by
  unfold writeTurn
  rw [front_write_bind]
  simp only [headWritten, indexWritten, headRead, turnWritten, ← hsubject, if_true] at h
  by_cases hs : turn.policy.consent.subject = ""
  · simp only [hs, ne_eq, not_true, if_false] at h ⊢
    cases n with
    | zero => rfl
    | succ n =>
      rw [front_read_bind, front_listTurn]
      by_cases hshard : turn.indexShard.isSome <;> simp [hshard] at h ⊢ <;> omega
  · simp only [hs, ne_eq, not_false_iff, if_true] at h ⊢
    cases n with
    | zero => rfl
    | succ n =>
      rw [front_write_bind]
      cases n with
      | zero => rfl
      | succ n =>
        rw [front_read_bind, front_listTurn]
        · rfl
        · by_cases hshard : turn.indexShard.isSome <;> simp [hshard] at h ⊢ <;> omega

theorem record_parts (c : String) (now : OffsetDateTime) (store : Store)
    (htaken : admitTurn reader policy request = .ok ()) :
    ∃ rest : ArchivedTurn → Prog Store (Except Error RecordedTurn),
      (∀ turn n (s : Store), ((rest turn).front n s).conversation c = s.conversation c) ∧
      (∀ n, (record reader policy request now).front (n + 3) store =
        (writeTurn (firstRecord reader store policy request now) (store.turn request.conversationId
          (reader.turnId request.conversationId request.messageId)) >>= rest).front n
            (store.putContent (reader.turnId request.conversationId request.messageId)
              request.content)) ∧
      (((record reader policy request now).run store).2.conversation c =
        ((writeTurn (firstRecord reader store policy request now) (store.turn request.conversationId
          (reader.turnId request.conversationId request.messageId))).run
            (store.putContent (reader.turnId request.conversationId request.messageId)
              request.content)).2.conversation c) := by
  unfold record
  rw [htaken]
  refine ⟨_, fun turn n s => ?_, fun n => rfl, ?_⟩
  · cases n with
    | zero => rfl
    | succ n =>
      rw [front_write_bind, front_pure]
      rfl
  · simp only [run_bind, run_read, run_write, run_pure]
    rfl

/-- **A recording that dies early** leaves the turn's record, and nothing else of it. -/
theorem front_record_written (htaken : admitTurn reader policy request = .ok ())
    (hn : turnWritten ≤ n)
    (h : n < if (firstRecord reader store policy request now).indexShard.isSome
      then headWritten request true else indexWritten request) :
    ((record reader policy request now).front n store).conversation c =
      (store.putTurn (firstRecord reader store policy request now)).conversation c := by
  obtain ⟨rest, -, hfront, -⟩ := record_parts c now store htaken
  have hall := accesses_writeTurn request
    (firstRecord reader store policy request now) (store.turn request.conversationId
      (reader.turnId request.conversationId request.messageId)) (store.putContent
        (reader.turnId request.conversationId request.messageId) request.content) rfl
  obtain ⟨k, rfl⟩ := Nat.exists_eq_add_of_le' hn
  have hshort : k + 1 + 3 ≤ headWritten request
      (firstRecord reader store policy request now).indexShard.isSome := by
    revert h
    cases (firstRecord reader store policy request now).indexShard.isSome <;>
      simp [headWritten, indexWritten, turnWritten] <;> omega
  have hthree : k + turnWritten = k + 1 + 3 := rfl
  rw [hthree, hfront, front_bind_of_le (by omega)]
  exact front_writeTurn rfl h c

/-- **A recording that dies late** has done all that its conversation shows. -/
theorem front_record_headWritten (htaken : admitTurn reader policy request = .ok ())
    (h : headWritten request (firstRecord reader store policy request now).indexShard.isSome ≤ n) :
    ((record reader policy request now).front n store).conversation c =
      ((record reader policy request now).run store).2.conversation c := by
  obtain ⟨rest, hrest, hfront, hrun⟩ := record_parts c now store htaken
  have hall := accesses_writeTurn request
    (firstRecord reader store policy request now) (store.turn request.conversationId
      (reader.turnId request.conversationId request.messageId)) (store.putContent
        (reader.turnId request.conversationId request.messageId) request.content) rfl
  obtain ⟨k, rfl⟩ : ∃ k, n = k + 3 := Nat.exists_eq_add_of_le' (by omega)
  rw [hfront, front_bind_of_accesses_le (by omega), hrest, hrun]

end

/-! ## What they leave -/

/-- Two records of a turn that are counted alike. -/
def SameWeight (previous turn : ArchivedTurn) : Prop :=
  previous.review.state = turn.review.state ∧ previous.state = turn.state ∧
    (previous.findings.map (·.kind)).Perm (turn.findings.map (·.kind))

instance (previous turn : ArchivedTurn) : Decidable (SameWeight previous turn) :=
  inferInstanceAs (Decidable (_ ∧ _ ∧ _))

theorem SameWeight.worth {previous turn : ArchivedTurn} (h : SameWeight previous turn) :
    previous.worth = turn.worth := by
  obtain ⟨hreview, hstate, hfindings⟩ := h
  funext counter
  cases counter with
  | turns => rfl
  | finding kind =>
    have hcount := hfindings.countP_eq fun found => found.asStr = kind
    rwa [countP_map, countP_map] at hcount
  | pending | approved | rejected => simp only [ArchivedTurn.worth, hreview]
  | erased => simp only [ArchivedTurn.worth, hstate]

/-- **A record in another's place** that weighs the same leaves the counts right. -/
theorem Tallied.replace {objects : ConversationObjects} (h : Tallied c objects)
    {previous turn : ArchivedTurn} (hprevious : objects.turns[turn.turnId]? = some previous)
    (hweight : SameWeight previous turn) (hconversation : turn.conversationId = c)
    (hshard : turn.indexShard.isSome) :
    Tallied c { objects with turns := objects.turns.insert turn.turnId turn } := by
  have hmem : turn.turnId ∈ objects.turns :=
    Table.mem_of_getElem? hprevious
  refine ⟨h.named, fun head hhead => ?_, h.once, fun turnId => ?_, h.beyond,
    fun turnId other hother => ?_⟩
  · have hcounted := h.counted head hhead
    refine ⟨hcounted.numbers.trans ?_, hcounted.found⟩
    rw [fold, fold, tally_insert, tally_eq_add hprevious, hweight.worth]
  · refine (h.lists turnId).trans ?_
    rw [ExtTreeMap.mem_insert]
    refine ⟨.inr, ?_⟩
    rintro (heq | hmem')
    · rwa [← Std.LawfulEqOrd.eq_of_compare heq]
    · exact hmem'
  · obtain ⟨heq, rfl⟩ | ⟨-, hother⟩ := of_insert hother
    · exact ⟨heq, hconversation, hshard⟩
    · exact h.turns turnId other hother

/-- A conversation after recordings some of which died: it is tallied, or a turn that is owed, the
only one, is not yet listed. -/
inductive Standing (reader : Reader) (owed : List (String × String)) (c : String)
    (objects : ConversationObjects) : Prop
  | tallied (h : Tallied c objects)
  | first (others : ConversationObjects) (turn : ArchivedTurn) (messageId : String)
      (h : Tallied c others) (hempty : others.turns = ∅)
      (hobjects : objects =
        { others with turns := (∅ : BTreeMap String ArchivedTurn).insert turn.turnId turn })
      (hunlisted : turn.indexShard = none) (hid : turn.turnId = reader.turnId c messageId)
      (howed : (c, messageId) ∈ owed)

/-- No other turn of the conversation waits to be listed. -/
def NoneWaits (reader : Reader) (store : Store) (request : RecordTurnRequest) : Prop :=
  ∀ turn ∈ (store.conversation request.conversationId).turns.values, turn.indexShard = none →
    turn.turnId = reader.turnId request.conversationId request.messageId

instance (reader : Reader) (store : Store) (request : RecordTurnRequest) :
    Decidable (NoneWaits reader store request) :=
  inferInstanceAs (Decidable (∀ turn ∈ (store.conversation _).turns.values,
    turn.indexShard = none → turn.turnId = _))

/-- There is no other turn in the conversation. -/
def NoOther (reader : Reader) (store : Store) (request : RecordTurnRequest) : Prop :=
  ∀ turnId ∈ (store.conversation request.conversationId).turns.keys,
    turnId = reader.turnId request.conversationId request.messageId

instance (reader : Reader) (store : Store) (request : RecordTurnRequest) :
    Decidable (NoOther reader store request) :=
  inferInstanceAs (Decidable (∀ turnId ∈ _, turnId = _))

section

variable {policy : ArchivePolicy} {request : RecordTurnRequest} {now : OffsetDateTime}
  {owed : List (String × String)}

/-- **A recording that completes** leaves its conversation tallied, and the others as they were. -/
theorem Standing.completes (now : OffsetDateTime)
    (htaken : admitTurn reader policy request = .ok ())
    (h : Standing reader owed request.conversationId (store.conversation request.conversationId))
    (hwaits : NoneWaits reader store request) :
    Tallied request.conversationId
        (((record reader policy request now).run store).2.conversation request.conversationId) ∧
      ∀ c, request.conversationId ≠ c →
        ((record reader policy request now).run store).2.conversation c = store.conversation c := by
  generalize hexisting : store.turn request.conversationId
    (reader.turnId request.conversationId request.messageId) = existing
  generalize hstore : store.putContent (reader.turnId request.conversationId request.messageId)
    request.content = store'
  have hsame : ∀ c, store'.conversation c = store.conversation c := fun c => by rw [← hstore]; rfl
  have hrun : ∀ c, ((record reader policy request now).run store).2.conversation c =
      ((writeTurn (firstRecord reader store policy request now) existing).run store').2.conversation
        c := fun c => by
    obtain ⟨-, -, -, hrun⟩ := record_parts c now store htaken
    rw [hrun, hexisting, hstore]
  suffices hwritten : Beside request.conversationId store'
      ((writeTurn (firstRecord reader store policy request now) existing).run store').2 ∧
        Tallied request.conversationId (((writeTurn (firstRecord reader store policy request now)
          existing).run store').2.conversation request.conversationId) by
    refine ⟨by rw [hrun]; exact hwritten.2, fun c hc => ?_⟩
    rw [hrun, hwritten.1.conversation c hc, hsame]
  have hshard : (firstRecord reader store policy request now).indexShard =
      existing.bind (·.indexShard) := by rw [← hexisting]; rfl
  have hturn : (store'.conversation request.conversationId).turns[
      reader.turnId request.conversationId request.messageId]? = existing := by
    rw [hsame, ← Store.turn, hexisting]
  cases h with
  | tallied h =>
    rw [← hsame] at h
    cases existing with
    | none =>
      obtain ⟨hbeside, htallied, -⟩ := tallied_writeUnlisted
        (firstRecord reader store policy request now) h hturn rfl (fun _ _ => rfl)
        hshard (.inl rfl)
      exact ⟨hbeside, htallied⟩
    | some previous =>
      have hisSome := (h.turns _ previous hturn).2.2
      obtain ⟨hbeside, htallied, -⟩ := tallied_writeListed
        (firstRecord reader store policy request now) h hturn
        (by rw [hshard]; exact hisSome)
      exact ⟨hbeside, htallied⟩
  | first others turn messageId h hempty hobjects hunlisted hid howed =>
    have hown : turn.turnId = reader.turnId request.conversationId request.messageId := by
      refine hwaits turn (BTreeMap.mem_values.mpr ⟨turn.turnId, ?_⟩) hunlisted
      rw [hobjects, Table.getElem?_insert, if_pos rfl]
    have hsome : existing = some turn := by
      rw [← hturn, hsame, hobjects, Table.getElem?_insert, if_pos hown]
    subst hsome
    obtain ⟨hbeside, htallied, -⟩ := tallied_writeUnlisted
      (firstRecord reader store policy request now) h (by rw [hempty]; rfl)
      ((hsame _).trans hobjects) (fun turnId hne => by
        rw [hempty, Table.getElem?_insert, if_neg]
        rw [hown]
        exact hne) (hshard.trans hunlisted) (.inr hempty)
    exact ⟨hbeside, htallied⟩

/-- Where a recording may die: before the turn's record is written, after the head is, in between
over a record that is listed and weighs the same, or, with the conversation's first turn, before
that is listed. -/
def DiesWell (reader : Reader) (store : Store) (policy : ArchivePolicy)
    (request : RecordTurnRequest) (now : OffsetDateTime) (n : Nat) : Prop :=
  let existing := store.turn request.conversationId
    (reader.turnId request.conversationId request.messageId)
  let listed := (existing.bind (·.indexShard)).isSome
  n < turnWritten ∨ NoneWaits reader store request ∧
    (headWritten request listed ≤ n ∨
      listed ∧ existing.all (SameWeight · (firstRecord reader store policy request now)) ∨
      ¬ listed ∧ NoOther reader store request ∧ n < indexWritten request)

instance (reader : Reader) (store : Store) (policy : ArchivePolicy)
    (request : RecordTurnRequest) (now : OffsetDateTime) (n : Nat) :
    Decidable (DiesWell reader store policy request now n) :=
  inferInstanceAs (Decidable (n < turnWritten ∨ NoneWaits reader store request ∧
    (headWritten request _ ≤ n ∨ _ ∧ _ ∨ ¬ _ ∧ NoOther reader store request ∧
      n < indexWritten request)))

theorem Standing.mono {objects : ConversationObjects} (h : Standing reader owed c objects)
    {owed' : List (String × String)} (howed : ∀ messageId, (c, messageId) ∈ owed →
      (c, messageId) ∈ owed') : Standing reader owed' c objects := by
  cases h with
  | tallied h => exact .tallied h
  | first others turn messageId h hempty hobjects hunlisted hid hmem =>
    exact .first others turn messageId h hempty hobjects hunlisted hid (howed messageId hmem)

/-- **The turn's record alone** does no harm in the place of one that weighs the same, or where
there is no other turn. -/
theorem Standing.early (now : OffsetDateTime)
    (h : Standing reader owed request.conversationId (store.conversation request.conversationId))
    (hwaits : NoneWaits reader store request) {existing : Option ArchivedTurn}
    (hexisting : store.turn request.conversationId
      (reader.turnId request.conversationId request.messageId) = existing)
    {record : ArchivedTurn} (hrecord : firstRecord reader store policy request now = record)
    (hearly : record.indexShard.isSome ∧ existing.all (SameWeight · record) ∨
      ¬ record.indexShard.isSome ∧ NoOther reader store request) :
    Standing reader ((request.conversationId, request.messageId) :: owed) request.conversationId
      { store.conversation request.conversationId with
        turns :=
          (store.conversation request.conversationId).turns.insert record.turnId record } := by
  have hshard : record.indexShard = existing.bind (·.indexShard) := by
    rw [← hexisting, ← hrecord]
    rfl
  have hid : record.turnId = reader.turnId request.conversationId request.messageId := by
    rw [← hrecord]
    rfl
  have hconversation : record.conversationId = request.conversationId := by rw [← hrecord]; rfl
  have hunlisted : ¬ record.indexShard.isSome → record.indexShard = none := by simp
  rw [← hid, Store.turn] at hexisting
  cases h with
  | tallied h =>
    cases existing with
    | none =>
      rcases hearly with ⟨hlisted, -⟩ | ⟨hlisted, hother⟩
      · rw [hshard] at hlisted
        cases hlisted
      · have hempty : (store.conversation request.conversationId).turns = ∅ := by
          refine ExtTreeMap.ext_getElem? fun turnId => ?_
          cases hturn : (store.conversation request.conversationId).turns[turnId]? with
          | none => rfl
          | some turn =>
            have heq := hother turnId (ExtTreeMap.mem_keys.mpr (Table.mem_of_getElem? hturn))
            rw [← hid] at heq
            rw [heq, hexisting] at hturn
            cases hturn
        refine .first _ record request.messageId h hempty ?_ (hunlisted hlisted) hid
          mem_cons_self
        rw [hempty]
    | some previous =>
      have hisSome := (h.turns _ previous hexisting).2.2
      rcases hearly with ⟨hlisted, hsame⟩ | ⟨hlisted, -⟩
      · exact .tallied (h.replace hexisting (by simpa using hsame) hconversation hlisted)
      · rw [hshard] at hlisted
        exact absurd hisSome hlisted
  | first others turn messageId h hempty hobjects howner _ _ =>
    have hown : turn.turnId = record.turnId := by
      rw [hid]
      refine hwaits turn (BTreeMap.mem_values.mpr ⟨turn.turnId, ?_⟩) howner
      rw [hobjects, Table.getElem?_insert, if_pos rfl]
    have hsome : existing = some turn := by
      rw [← hexisting, hobjects, Table.getElem?_insert, if_pos hown]
    subst hsome
    refine .first others record request.messageId h hempty ?_ (hshard.trans howner) hid
      mem_cons_self
    rw [hobjects]
    simp only [ConversationObjects.mk.injEq, true_and]
    refine ExtTreeMap.ext_getElem? fun k => ?_
    simp only [Table.getElem?_insert, hown]
    split <;> rfl

/-- **A recording that dies** where it may leaves its conversation tallied, or owed its first
turn, and the others as they were. -/
theorem Standing.dies (htaken : admitTurn reader policy request = .ok ()) {n : Nat}
    (h : Standing reader owed request.conversationId (store.conversation request.conversationId))
    (hdies : DiesWell reader store policy request now n) :
    Standing reader ((request.conversationId, request.messageId) :: owed) request.conversationId
        (((record reader policy request now).front n store).conversation request.conversationId) ∧
      ∀ c, request.conversationId ≠ c →
        ((record reader policy request now).front n store).conversation c =
          store.conversation c := by
  have hmono : ∀ messageId, (request.conversationId, messageId) ∈ owed →
      (request.conversationId, messageId) ∈
        (request.conversationId, request.messageId) :: owed :=
    fun _ => mem_cons_of_mem _
  generalize hexisting : store.turn request.conversationId
    (reader.turnId request.conversationId request.messageId) = existing
  have hshard : (firstRecord reader store policy request now).indexShard =
      existing.bind (·.indexShard) := by rw [← hexisting]; rfl
  by_cases hbefore : n < turnWritten
  · refine ⟨?_, fun c _ => front_record_before hbefore c⟩
    rw [front_record_before hbefore]
    exact h.mono hmono
  obtain ⟨hwaits, hdies⟩ := hdies.resolve_left hbefore
  have hturn := Nat.le_of_not_lt hbefore
  rw [hexisting, ← hshard] at hdies
  by_cases hlate :
      headWritten request (firstRecord reader store policy request now).indexShard.isSome ≤ n
  · obtain ⟨htallied, hothers⟩ := h.completes now htaken hwaits
    refine ⟨?_, fun c hc => ?_⟩
    · rw [front_record_headWritten htaken hlate]
      exact .tallied htallied
    · rw [front_record_headWritten htaken hlate]
      exact hothers c hc
  have hwritten : ∀ c, ((record reader policy request now).front n store).conversation c =
      (store.putTurn (firstRecord reader store policy request now)).conversation c := by
    intro c
    refine front_record_written htaken hturn ?_
    rcases hdies.resolve_left hlate with ⟨hlisted, -⟩ | ⟨hlisted, -, hindex⟩
    · rw [if_pos hlisted]
      rw [hlisted] at hlate
      exact Nat.lt_of_not_le hlate
    · rwa [if_neg hlisted]
  refine ⟨?_, fun c hc => ?_⟩
  · have hid : (firstRecord reader store policy request now).conversationId =
        request.conversationId := rfl
    rw [hwritten, Store.conversation_putTurn, if_pos hid]
    refine h.early now hwaits hexisting rfl ?_
    exact (hdies.resolve_left hlate).imp_right fun hearly => ⟨hearly.1, hearly.2.1⟩
  · rw [hwritten, Store.conversation_putTurn]
    exact if_neg hc

end

/-! ## Every run -/

/-- A recording that completes, or dies after so many accesses. -/
inductive Recording where
  | completes (policy : ArchivePolicy) (request : RecordTurnRequest) (now : OffsetDateTime)
  | dies (accesses : Nat) (policy : ArchivePolicy) (request : RecordTurnRequest)
      (now : OffsetDateTime)

/-- What a recording makes of the store. -/
def recording (reader : Reader) (store : Store) : Recording → Store
  | .completes policy request now => ((record reader policy request now).run store).2
  | .dies accesses policy request now => (record reader policy request now).front accesses store

def recordings (reader : Reader) : Machine Store Recording Unit where
  step store act := some ([], recording reader store act)

/-- The messages that are owed after a recording: one that died is, until it is recorded again. -/
def owing (reader : Reader) (owed : List (String × String)) : Recording → List (String × String)
  | .completes policy request _ =>
    if admitTurn reader policy request = .ok () then
      owed.filter (· ≠ (request.conversationId, request.messageId))
    else owed
  | .dies _ policy request _ =>
    if admitTurn reader policy request = .ok () then
      (request.conversationId, request.messageId) :: owed
    else owed

/-- A recording that is refused, or meets no other turn that waits to be listed and, if it dies,
dies well. -/
def Unhurt (reader : Reader) (store : Store) : Recording → Prop
  | .completes policy request _ =>
    admitTurn reader policy request = .ok () → NoneWaits reader store request
  | .dies accesses policy request now =>
    admitTurn reader policy request = .ok () →
      DiesWell reader store policy request now accesses

instance (reader : Reader) (store : Store) (act : Recording) :
    Decidable (Unhurt reader store act) :=
  match act with
  | .completes policy request _ =>
    inferInstanceAs (Decidable (admitTurn reader policy request = .ok () → _))
  | .dies accesses policy request now =>
    inferInstanceAs (Decidable (admitTurn reader policy request = .ok () →
      DiesWell reader store policy request now accesses))

/-- Every stored turn is listed exactly once, and the head's numbers are those of the stored
turns. -/
def Repaired (objects : ConversationObjects) : Prop :=
  (∀ turnId, objects.listed.count turnId = if turnId ∈ objects.turns then 1 else 0) ∧
  (objects.head = none → objects.turns = ∅) ∧
  ∀ head ∈ objects.head, head.numbers = fold objects.turns

theorem Tallied.repaired {objects : ConversationObjects} (h : Tallied c objects) :
    Repaired objects := by
  refine ⟨fun turnId => ?_, h.turns_eq_empty, fun head hhead => (h.counted head hhead).numbers⟩
  rw [h.once.count]
  simp only [h.lists]

theorem Standing.step {owed : List (String × String)}
    (h : ∀ c, Standing reader owed c (store.conversation c)) (act : Recording)
    (hunhurt : Unhurt reader store act) (c : String) :
    Standing reader (owing reader owed act) c ((recording reader store act).conversation c) := by
  cases act with
  | completes policy request now =>
    cases htaken : admitTurn reader policy request with
    | error error =>
      simp only [recording, owing, record, htaken, run_pure, reduceCtorEq, if_false]
      exact h c
    | ok u =>
      obtain ⟨htallied, hothers⟩ :=
        (h request.conversationId).completes now htaken (hunhurt htaken)
      simp only [recording, owing, htaken, if_true]
      by_cases hc : request.conversationId = c
      · rw [← hc]
        exact .tallied htallied
      · rw [hothers c hc]
        refine (h c).mono fun messageId hmem => mem_filter.mpr ⟨hmem, ?_⟩
        simp only [ne_eq, Prod.mk.injEq, decide_eq_true_eq]
        exact fun heq => hc heq.1.symm
  | dies accesses policy request now =>
    cases htaken : admitTurn reader policy request with
    | error error =>
      simp only [recording, owing, record, htaken, front_pure, reduceCtorEq, if_false]
      exact h c
    | ok u =>
      obtain ⟨hstanding, hothers⟩ := (h request.conversationId).dies htaken (hunhurt htaken)
      simp only [recording, owing, htaken, if_true]
      by_cases hc : request.conversationId = c
      · rw [← hc]
        exact hstanding
      · rw [hothers c hc]
        exact (h c).mono fun messageId hmem => mem_cons_of_mem _ hmem

theorem standing_last {owed : List (String × String)} {acts : List Recording}
    (h : ∀ c, Standing reader owed c (store.conversation c))
    (hacts : ∀ step ∈ (recordings reader).run store acts, Unhurt reader step.before step.input)
    (c : String) : Standing reader (acts.foldl (owing reader) owed) c
      (((recordings reader).last store acts).conversation c) := by
  induction acts generalizing store owed with
  | nil => exact h c
  | cons act acts ih =>
    rw [Machine.run_cons_some rfl] at hacts
    rw [Machine.last_cons_some rfl, foldl_cons]
    exact ih (Standing.step h act (hacts _ mem_cons_self))
      fun step hstep => hacts step (mem_cons_of_mem _ hstep)

/-- **Recording an interrupted turn again repairs the archive** where the recordings that died
died well: once a conversation is owed no turn, each of its stored turns is listed exactly once,
and its head's counts are those of the stored turns. -/
theorem resending_repairs (reader : Reader) (acts : List Recording)
    (hunhurt : ∀ step ∈ (recordings reader).run {} acts, Unhurt reader step.before step.input)
    (c : String) (hresent : ∀ message ∈ acts.foldl (owing reader) [], message.1 ≠ c) :
    Repaired (((recordings reader).last {} acts).conversation c) := by
  have hnew : ∀ c, Standing reader [] c (({} : Store).conversation c) :=
    fun c => .tallied (tallied_new c)
  have hstanding := standing_last hnew hunhurt c
  cases hstanding with
  | tallied h => exact h.repaired
  | first others turn messageId h hempty hobjects hunlisted hid howed =>
    exact absurd rfl (hresent _ howed)

/-- Recordings that die wherever they may. -/
def dyingWell : List Recording :=
  [.dies 5 {} (saying "a" "b" "hello") 0, .completes {} (saying "a" "b" "hello") 1,
    .dies 3 {} (saying "a" "c" "bye") 2, .completes {} (saying "a" "c" "bye") 3,
    .dies 6 {} (saying "a" "c" "bye") 4, .completes {} (saying "a" "c" "bye") 5,
    .dies 10 {} (saying "a" "d" "again") 6, .completes {} (saying "a" "d" "again") 7]

theorem resending_repairs_dyingWell :
    Repaired (((recordings plainReader).last {} dyingWell).conversation "a") :=
  resending_repairs plainReader dyingWell (by decide +kernel) "a" (by decide +kernel)

/-- A second turn dies once its record is written, and is recorded again. -/
def secondDies : List Recording :=
  [.completes {} (saying "a" "b" "hello") 0, .dies 4 {} (saying "a" "c" "bye") 1,
    .completes {} (saying "a" "c" "bye") 2]

/-- **An interrupted turn is not counted**: it is recorded again, and the head says one turn where
two are stored. -/
theorem resent_uncounted : (∀ message ∈ secondDies.foldl (owing plainReader) [], message.1 ≠ "a") ∧
    ¬ Repaired (((recordings plainReader).last {} secondDies).conversation "a") := by
  refine ⟨by decide +kernel, fun ⟨_, _, hnumbers⟩ => ?_⟩
  have hhead : (((recordings plainReader).last {} secondDies).conversation "a").head.map
      (·.numbers .turns) = some 1 := by decide +kernel
  have hfold : fold (((recordings plainReader).last {} secondDies).conversation "a").turns .turns =
      2 := by decide +kernel
  obtain ⟨head, hsome, hone⟩ := Option.map_eq_some_iff.mp hhead
  rw [hnumbers head hsome, hfold] at hone
  cases hone

end Aiwatcher.Conversations
