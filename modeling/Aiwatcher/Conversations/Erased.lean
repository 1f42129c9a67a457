import Aiwatcher.Conversations.Settled

/-!
# Aiwatcher.Conversations.Erased

What holds of the archive between any two operations (`Sound`), and what erasing turns, one or
all that an index lists, leaves of it (`Erases`).
-/

namespace Aiwatcher.Conversations

open Library Prog List Table ConversationObjects

/-- The archive between operations: every conversation is settled, and a turn has its content as
long as it is held. -/
structure Sound (reader : Reader) (messages : List (String × String)) (store : Store) :
    Prop where
  settled : ∀ c, Settled c (store.conversation c)
  named : ∀ c turnId turn, store.turn c turnId = some turn →
    ∃ messageId, (c, messageId) ∈ messages ∧ turnId = reader.turnId c messageId
  sealed : ∀ c turnId turn, store.turn c turnId = some turn →
    (store.contents[turnId]?.isSome ↔ turn.state = .held)

/-- No id is that of two of some messages that are of different conversations. -/
def Reader.Distinct (reader : Reader) (messages : List (String × String)) : Prop :=
  ∀ message ∈ messages, ∀ other ∈ messages,
    reader.turnId message.1 message.2 = reader.turnId other.1 other.2 → message.1 = other.1

instance (reader : Reader) (messages : List (String × String)) :
    Decidable (reader.Distinct messages) :=
  inferInstanceAs (Decidable (∀ message ∈ messages, ∀ other ∈ messages,
    reader.turnId message.1 message.2 = reader.turnId other.1 other.2 → message.1 = other.1))

variable {reader : Reader} {messages : List (String × String)} {store store' : Store} {c : String}

theorem sound_new : Sound reader messages {} where
  settled c := settled_new c
  named := by simp [Store.turn, Store.conversation]
  sealed := by simp [Store.turn, Store.conversation]

theorem Sound.congr (h : Sound reader messages store)
    (hconversations : store'.conversations = store.conversations)
    (hcontents : store'.contents = store.contents) : Sound reader messages store' := by
  have hconversation : ∀ c, store'.conversation c = store.conversation c := fun c => by
    rw [Store.conversation, hconversations, ← Store.conversation]
  refine ⟨fun c => ?_, fun c turnId turn hturn => ?_, fun c turnId turn hturn => ?_⟩
  · rw [hconversation]
    exact h.settled c
  · rw [Store.turn, hconversation] at hturn
    exact h.named c turnId turn hturn
  · rw [Store.turn, hconversation] at hturn
    rw [hcontents]
    exact h.sealed c turnId turn hturn

/-! ## Changing a stored turn -/

theorem settled_recount {previous next : ArchivedTurn} (h : Settled c (store.conversation c))
    (hprevious : store.turn c next.turnId = some previous) (hnext : next.conversationId = c)
    (hshard : next.indexShard = previous.indexShard)
    (hheld : next.state = .held → previous.state = .held)
    (hexpiry : next.expiresAt = previous.expiresAt) :
    Beside c store ((recount c previous next).run (store.putTurn next)).2 ∧
      Settled c (((recount c previous next).run (store.putTurn next)).2.conversation c) ∧
      (((recount c previous next).run (store.putTurn next)).2.conversation c).index =
        (store.conversation c).index ∧
      (((recount c previous next).run (store.putTurn next)).2.conversation c).turns =
        (store.conversation c).turns.insert next.turnId next := by
  have hmem : next.turnId ∈ (store.conversation c).turns :=
    Std.ExtTreeMap.mem_iff_isSome_getElem?.mpr (by rw [← Store.turn, hprevious]; rfl)
  obtain ⟨head, hhead⟩ := h.exists_head hmem
  have halike := head.alike_applyCounts (some previous) next
  have hid : (head.applyCounts (some previous) (some next)).conversationId = c :=
    halike.conversationId.trans (h.named head hhead)
  have hrun : ((recount c previous next).run (store.putTurn next)).2 =
      (store.putTurn next).putHead (head.applyCounts (some previous) (some next)) := by
    simp [recount, Store.head, hnext, hhead]
  rw [hrun]
  have hput : ((store.putTurn next).putHead
      (head.applyCounts (some previous) (some next))).conversation c =
        { store.conversation c with
          head := some (head.applyCounts (some previous) (some next))
          turns := (store.conversation c).turns.insert next.turnId next } := by
    rw [Store.conversation_putHead, if_pos hid, Store.conversation_putTurn, if_pos hnext]
  refine ⟨⟨fun other hother => ?_, rfl, rfl⟩, ?_, by rw [hput], by rw [hput]⟩
  · rw [Store.conversation_putHead, hid, if_neg hother, Store.conversation_putTurn, hnext,
      if_neg hother]
  · rw [hput]
    have hisSome := (h.turns next.turnId previous hprevious).2.2
    refine h.change hhead hprevious hnext (by rw [hshard]; exact hisSome) rfl rfl
      halike.conversationId halike.shards (fun bound hbound => ⟨bound, ?_, Int.le_refl _⟩)
      fun hstate expiry hmoment => ?_
    · rwa [halike.earliestExpiry]
    · rw [hexpiry] at hmoment
      rw [halike.earliestExpiry]
      exact h.expiry head hhead next.turnId previous hprevious (hheld hstate) expiry hmoment

theorem turn_of_beside (hbeside : Beside c store store') {turnId : String} {next : ArchivedTurn}
    (hturns : (store'.conversation c).turns = (store.conversation c).turns.insert turnId next)
    (c' turnId' : String) : store'.turn c' turnId' =
      if c = c' ∧ turnId = turnId' then some next else store.turn c' turnId' := by
  by_cases hc : c = c'
  · subst hc
    rw [Store.turn, hturns, Table.getElem?_insert]
    by_cases hid : turnId = turnId' <;> simp [hid, Store.turn]
  · rw [Store.turn, hbeside.conversation c' hc, if_neg (by simp [hc]), Store.turn]

section

variable (hdistinct : reader.Distinct messages)

include hdistinct

section

variable (h : Sound reader messages store)

include h

theorem Sound.change
    (hbeside : ∀ c', c ≠ c' → store'.conversation c' = store.conversation c')
    (hsettled : Settled c (store'.conversation c)) {turnId : String} {next : ArchivedTurn}
    (hturn : ∀ c' turnId', store'.turn c' turnId' =
      if c = c' ∧ turnId = turnId' then some next else store.turn c' turnId')
    (hnamed : ∃ messageId, (c, messageId) ∈ messages ∧ turnId = reader.turnId c messageId)
    (hcontents : ∀ other, turnId ≠ other → store'.contents[other]? = store.contents[other]?)
    (hsealed : store'.contents[turnId]?.isSome ↔ next.state = .held) :
    Sound reader messages store' := by
  refine ⟨fun c' => ?_, fun c' turnId' turn hsome => ?_, fun c' turnId' turn hsome => ?_⟩
  · by_cases hc : c = c'
    · rw [← hc]
      exact hsettled
    · rw [hbeside c' hc]
      exact h.settled c'
  · rw [hturn] at hsome
    split at hsome
    · rename_i heq
      rw [← heq.1, ← heq.2]
      exact hnamed
    · exact h.named c' turnId' turn hsome
  · rw [hturn] at hsome
    split at hsome
    · rename_i heq
      cases hsome
      rw [← heq.2]
      exact hsealed
    · rename_i hne
      rw [hcontents turnId']
      · exact h.sealed c' turnId' turn hsome
      · intro heq
        obtain ⟨messageId, hmem, hmessage⟩ := hnamed
        obtain ⟨messageId', hmem', hmessage'⟩ := h.named c' turnId' turn hsome
        exact hne ⟨hdistinct _ hmem _ hmem' (by rw [← hmessage, ← hmessage', heq]), heq⟩

/-! ## Recording and reviewing -/

theorem Sound.record
    (policy : ArchivePolicy) (request : RecordTurnRequest) (now : OffsetDateTime)
    (hmessage : request.validate = .ok () →
      (request.conversationId, request.messageId) ∈ messages) :
    Sound reader messages ((record reader policy request now).run store).2 := by
  unfold Conversations.record
  cases htaken : admitTurn reader policy request with
  | error error => exact h
  | ok u =>
    have hvalid : request.validate = .ok () := by
      obtain ⟨_, hvalid, -⟩ := Refusal.except_bind_ok_iff.mp htaken
      exact hvalid
    generalize hid : reader.turnId request.conversationId request.messageId = turnId
    generalize hexisting : store.turn request.conversationId turnId = existing
    generalize hmarker : store.digests[reader.digest request.content]? = marker
    simp only [run_bind, run_read, run_write, run_pure, hexisting, hmarker]
    generalize hturn : archivedTurn reader policy request existing marker now = turn
    have hconversation : turn.conversationId = request.conversationId := by rw [← hturn]; rfl
    have hturnId : turn.turnId = turnId := by rw [← hturn, ← hid]; rfl
    have hstate : turn.state = .held := by rw [← hturn]; rfl
    have hshard : turn.indexShard = existing.bind (·.indexShard) := by rw [← hturn]; rfl
    obtain ⟨hbeside, hsettled, shard, hturns⟩ :=
      @settled_writeTurn (store.putContent turnId request.content) turn existing
        (h.settled _) (by rw [hconversation, hturnId]; exact hexisting) hshard
    rw [hconversation] at hbeside hsettled hturns
    refine Sound.congr (Sound.change hdistinct h hbeside.conversation hsettled
      (turn_of_beside hbeside hturns) ⟨request.messageId, hmessage hvalid, by rw [hturnId, hid]⟩
      (fun other hother => ?_) ?_) rfl rfl
    · rw [hbeside.contents]
      rw [hturnId] at hother
      exact (Table.getElem?_insert _ _ _ _).trans (if_neg hother)
    · rw [hbeside.contents, hturnId]
      simp [Store.putContent, hstate]

theorem Sound.review (conversationId turnId reviewer : String) (request : ReviewRequest)
    (now : OffsetDateTime) :
    Sound reader messages ((review conversationId turnId reviewer request now).run store).2 := by
  unfold Conversations.review
  dsimp only
  split
  · exact h
  · simp only [run_bind, run_read]
    split
    · exact h
    · rename_i previous hprevious
      obtain ⟨hid, hconversation, -⟩ := (h.settled conversationId).turns turnId previous hprevious
      subst hid
      obtain ⟨hbeside, hsettled, -, hturns⟩ := @settled_recount store conversationId previous
        { previous with
          review := {
            state := request.state
            reviewer
            note := request.note
            decidedAt := some now
            preference := request.preference }
          findings := previous.findings ++ request.attributed reviewer }
        (h.settled conversationId) hprevious hconversation rfl id rfl
      simp only [run_bind, run_write, run_pure]
      exact Sound.change hdistinct h hbeside.conversation hsettled
        (turn_of_beside hbeside hturns) (h.named _ _ previous hprevious)
        (fun other _ => by rw [hbeside.contents])
        (by rw [hbeside.contents]; exact h.sealed _ _ previous hprevious)

end

end

/-! ## Erasing -/

/-- What erasing turns leaves of a store: the indexes, every turn's expiry, and what was erased. -/
structure Erases (store store' : Store) : Prop where
  index : ∀ c, (store'.conversation c).index = (store.conversation c).index
  turn : ∀ c turnId, store'.turn c turnId = store.turn c turnId ∨
    ∃ turn turn', store.turn c turnId = some turn ∧ store'.turn c turnId = some turn' ∧
      turn'.expiresAt = turn.expiresAt ∧ turn'.state = .erased

namespace Erases

theorem refl (store : Store) : Erases store store := ⟨fun _ => rfl, fun _ _ => .inl rfl⟩

theorem trans {store'' : Store} (h : Erases store store') (h' : Erases store' store'') :
    Erases store store'' where
  index c := (h'.index c).trans (h.index c)
  turn c turnId := by
    rcases h'.turn c turnId with heq | ⟨turn', turn'', hturn', hturn'', hexpiry', hstate⟩
    · rw [heq]
      exact h.turn c turnId
    · rcases h.turn c turnId with heq | ⟨turn, other, hturn, hother, hexpiry, -⟩
      · exact .inr ⟨turn', turn'', by rw [← heq, hturn'], hturn'', hexpiry', hstate⟩
      · rw [hother] at hturn'
        cases hturn'
        exact .inr ⟨turn, turn'', hturn, hturn'', hexpiry'.trans hexpiry, hstate⟩

theorem held (h : Erases store store') {turnId : String} {turn' : ArchivedTurn}
    (hturn' : store'.turn c turnId = some turn') (hheld : turn'.state = .held) :
    store.turn c turnId = some turn' := by
  rcases h.turn c turnId with heq | ⟨turn, other, -, hother, -, hstate⟩
  · rw [← heq, hturn']
  · rw [hother] at hturn'
    cases hturn'
    rw [hheld] at hstate
    cases hstate

end Erases

theorem Sound.eraseTurn (hdistinct : reader.Distinct messages) (h : Sound reader messages store)
    (turnId : String) (reason : ErasureReason) («by» : String) (now : OffsetDateTime) :
    Sound reader messages ((eraseTurn c turnId reason «by» now).run store).2 ∧
      Erases store ((eraseTurn c turnId reason «by» now).run store).2 ∧
      ∀ turn, ((eraseTurn c turnId reason «by» now).run store).2.turn c turnId = some turn →
        turn.state = .erased := by
  unfold Conversations.eraseTurn
  simp only [run_bind, run_read]
  split
  · rename_i hnone
    exact ⟨h, .refl _, fun turn hturn => by simp [hnone] at hturn⟩
  · rename_i previous hprevious
    split
    · rename_i herased
      refine ⟨h, .refl _, fun turn hturn => ?_⟩
      simp only [run_pure, hprevious, Option.some.injEq] at hturn
      rw [← hturn]
      exact herased
    · obtain ⟨hid, hconversation, -⟩ := (h.settled c).turns turnId previous hprevious
      subst hid
      obtain ⟨hbeside, hsettled, hindex, hturns⟩ := @settled_recount
        ((store.deleteContent previous.turnId).deleteDigest previous.contentDigest) c previous
        { previous with
          state := .erased
          erasure := some { reason, «by» := «by», «at» := now } }
        (h.settled c) hprevious hconversation rfl (by simp) rfl
      have hturn := turn_of_beside hbeside hturns
      simp only [run_bind, run_write, run_pure]
      refine ⟨Sound.change hdistinct h hbeside.conversation hsettled hturn
        (h.named _ _ previous hprevious) (fun other hother => ?_) ?_, ⟨fun c' => ?_,
        fun c' turnId' => ?_⟩, fun turn hsome => ?_⟩
      · rw [hbeside.contents]
        exact (getElem?_erase _ _ _).trans (if_neg hother)
      · rw [hbeside.contents]
        simp [Store.deleteContent, Store.deleteDigest]
      · by_cases hc : c = c'
        · subst hc
          exact hindex
        · rw [hbeside.conversation c' hc]
          rfl
      · rw [hturn]
        split
        · rename_i heq
          obtain ⟨rfl, rfl⟩ := heq
          exact .inr ⟨previous, _, hprevious, rfl, rfl, rfl⟩
        · exact .inl rfl
      · rw [hturn, if_pos ⟨rfl, rfl⟩, Option.some.injEq] at hsome
        rw [← hsome]

theorem run_forListed {α : Type} {f : α → String → Prog Store α}
    (hindex : ∀ a turnId store, (((f a turnId).run store).2.conversation c).index =
      (store.conversation c).index) (shards : Nat) (a : α) (store : Store) :
    (forListed c shards a f).run store = ((store.conversation c).listedIn shards).foldl
      (fun done turnId => (f done.1 turnId).run done.2) (a, store) := by
  have hkept : ∀ (turnIds : List String) (done : α × Store),
      ((turnIds.foldl (fun done turnId => (f done.1 turnId).run done.2) done).2.conversation
        c).index = (done.2.conversation c).index := by
    intro turnIds
    induction turnIds with
    | nil => exact fun _ => rfl
    | cons turnId turnIds ih =>
      intro done
      rw [foldl_cons, ih, hindex]
  have hshards : ∀ (shards : List Nat) (done : α × Store),
      (done.2.conversation c).index = (store.conversation c).index →
        shards.foldl (fun done shard => ((do
          let entries ← read fun store => store.index c shard
          entries.foldlM f done.1 : Prog Store α)).run done.2) done =
        (shards.flatMap fun shard => (store.conversation c).index[shard]?.getD []).foldl
          (fun done turnId => (f done.1 turnId).run done.2) done := by
    intro shards
    induction shards with
    | nil => exact fun _ _ => rfl
    | cons shard shards ih =>
      intro done hdone
      have hentries : done.2.index c shard =
          (store.conversation c).index[shard]?.getD [] := by rw [Store.index, hdone]
      rw [foldl_cons, flatMap_cons, foldl_append, run_bind, run_read, run_foldlM, hentries]
      exact ih _ ((hkept _ _).trans hdone)
  rw [forListed, run_foldlM]
  exact hshards _ _ rfl

/-- The soonest of the expiries of the turns that are held. -/
def earliestHeld (store : Store) (c : String) (earliest : Option OffsetDateTime)
    (turnId : String) : Option OffsetDateTime :=
  match store.turn c turnId with
  | none => earliest
  | some turn => if turn.state = .erased then earliest else earlier earliest turn.expiresAt

theorem le_earliestHeld {moment : OffsetDateTime} {turnIds : List String}
    {earliest : Option OffsetDateTime}
    (h : (∃ bound ∈ earliest, bound ≤ moment) ∨ ∃ turnId ∈ turnIds, ∃ turn,
      store.turn c turnId = some turn ∧ turn.state = .held ∧ moment ∈ turn.expiresAt) :
    ∃ bound ∈ turnIds.foldl (earliestHeld store c) earliest, bound ≤ moment := by
  induction turnIds generalizing earliest with
  | nil => simpa using h
  | cons turnId turnIds ih =>
    refine ih ?_
    rcases h with ⟨bound, hbound, hle⟩ | ⟨other, hmem, turn, hturn, hheld, hmoment⟩
    · refine .inl ?_
      unfold earliestHeld
      split
      · exact ⟨bound, hbound, hle⟩
      · split
        · exact ⟨bound, hbound, hle⟩
        · obtain ⟨bound', hbound', hle'⟩ := @earlier_le earliest _ bound (.inl hbound)
          exact ⟨bound', hbound', Int.le_trans hle' hle⟩
    · rcases mem_cons.mp hmem with rfl | hmem
      · refine .inl ?_
        simp only [earliestHeld, hturn, hheld]
        exact earlier_le (.inr hmoment)
      · exact .inr ⟨other, hmem, turn, hturn, hheld, hmoment⟩

theorem run_soonerHeld (store : Store) (c : String) (shards : Nat) :
    (forListed c shards none (soonerHeld c)).run store =
      (((store.conversation c).listedIn shards).foldl (earliestHeld store c) none, store) := by
  have hround : ∀ earliest turnId (store : Store), (soonerHeld c earliest turnId).run store =
      (earliestHeld store c earliest turnId, store) := by
    intro earliest turnId store
    simp only [soonerHeld, run_bind, run_read, earliestHeld]
    cases store.turn c turnId <;> rfl
  rw [run_forListed fun earliest turnId store => by rw [hround]]
  generalize (store.conversation c).listedIn shards = turnIds
  generalize (none : Option OffsetDateTime) = earliest
  induction turnIds generalizing earliest with
  | nil => rfl
  | cons turnId turnIds ih => rw [foldl_cons, foldl_cons, hround, ih]

theorem Settled.hint {objects : ConversationObjects} (h : Settled c objects)
    {head : ConversationHead} (hhead : objects.head = some head)
    {earliest : Option OffsetDateTime}
    (hearliest : ∀ (turnId : String) turn, objects.turns[turnId]? = some turn →
      turn.state = .held → ∀ expiry ∈ turn.expiresAt, ∃ bound ∈ earliest, bound ≤ expiry) :
    Settled c { objects with head := some { head with earliestExpiry := earliest } } := by
  have hshards : shards
      { objects with head := some { head with earliestExpiry := earliest } } = objects.shards := by
    simp [shards, hhead]
  have hlisted : listed
      { objects with head := some { head with earliestExpiry := earliest } } = objects.listed := by
    rw [listed, hshards]
    rfl
  refine ⟨⟨?_, ?_, by rw [hlisted]; exact h.once,
    fun turnId => by rw [hlisted]; exact h.lists turnId,
    fun shard hshard => h.beyond shard (by rwa [hshards] at hshard), h.turns⟩, ?_⟩
  · rintro _ ⟨⟩
    exact h.named head hhead
  · rintro _ ⟨⟩
    exact (h.counted head hhead).congr (numbers_congr rfl rfl rfl rfl rfl rfl) rfl
  · rintro _ ⟨⟩
    exact hearliest

theorem Sound.refreshExpiry (h : Sound reader messages store) (c : String) :
    Sound reader messages ((refreshExpiry c).run store).2 ∧
      Erases store ((refreshExpiry c).run store).2 := by
  unfold Conversations.refreshExpiry
  simp only [run_bind, run_read]
  split
  · exact ⟨h, .refl _⟩
  · rename_i head hhead
    have hloop := run_soonerHeld store c head.shards
    have hhead' : (store.conversation c).head = some head := hhead
    have hname := (h.settled c).named head hhead'
    simp only [run_bind, hloop, run_write]
    generalize hearliest : ((store.conversation c).listedIn head.shards).foldl
      (earliestHeld store c) none = earliest
    have hput : ∀ c', (store.putHead { head with earliestExpiry := earliest }).conversation c' =
        if c = c' then { store.conversation c with
          head := some { head with earliestExpiry := earliest } }
        else store.conversation c' := by
      intro c'
      rw [Store.conversation_putHead]
      simp only [hname]
      split
      · subst_vars
        rfl
      · rfl
    have hturn : ∀ c' turnId, (store.putHead { head with
        earliestExpiry := earliest }).turn c' turnId = store.turn c' turnId := by
      intro c' turnId
      rw [Store.turn, hput]
      split
      · subst_vars
        rfl
      · rfl
    refine ⟨⟨fun c' => ?_, fun c' turnId turn hsome => ?_, fun c' turnId turn hsome => ?_⟩,
      ⟨fun c' => ?_, fun c' turnId => .inl (hturn c' turnId)⟩⟩
    · rw [hput]
      split
      · rename_i heq
        subst heq
        refine (h.settled c).hint hhead' fun turnId turn hsome hheld expiry hmoment => ?_
        rw [← hearliest]
        refine le_earliestHeld (.inr ⟨turnId, ?_, turn, hsome, hheld, hmoment⟩)
        have hlisted := ((h.settled c).lists turnId).mpr
          (Table.mem_of_getElem? hsome)
        rwa [listed, shards, hhead'] at hlisted
      · exact h.settled c'
    · rw [hturn] at hsome
      exact h.named c' turnId turn hsome
    · rw [hturn] at hsome
      exact h.sealed c' turnId turn hsome
    · rw [hput]
      split
      · subst_vars
        rfl
      · rfl

end Aiwatcher.Conversations
