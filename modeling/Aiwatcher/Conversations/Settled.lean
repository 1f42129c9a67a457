import Aiwatcher.Conversations.Counted

/-!
# Aiwatcher.Conversations.Settled

A conversation whose index, counts and expiry agree with its stored turns (`Settled`), and what
writing a turn leaves of it (`settled_writeTurn`).
-/

namespace Aiwatcher.Conversations

open Library Prog List Option Table Std ConversationObjects

/-! ## Objects -/

namespace Store

variable {store : Store} {c c' : String} {objects : ConversationObjects}

@[simp] theorem conversation_putConversation :
    (store.putConversation c objects).conversation c' =
      if c = c' then objects else store.conversation c' := by
  simp only [conversation, putConversation, Table.getElem?_insert]
  split <;> rfl

@[simp] theorem conversation_putHead {head : ConversationHead} :
    (store.putHead head).conversation c =
      if head.conversationId = c then { store.conversation c with head := some head }
      else store.conversation c := by
  rw [putHead, conversation_putConversation]
  split
  · subst_vars
    rfl
  · rfl

@[simp] theorem conversation_putTurn {turn : ArchivedTurn} :
    (store.putTurn turn).conversation c =
      if turn.conversationId = c then
        { store.conversation c with
          turns := (store.conversation c).turns.insert turn.turnId turn }
      else store.conversation c := by
  rw [putTurn, conversation_putConversation]
  split
  · subst_vars
    rfl
  · rfl

@[simp] theorem putConversation_putConversation {other : ConversationObjects} :
    (store.putConversation c other).putConversation c objects =
      store.putConversation c objects := by
  simp only [putConversation, Store.mk.injEq, and_true]
  refine ExtTreeMap.ext_getElem? fun k => ?_
  simp only [Table.getElem?_insert]
  split <;> rfl

@[simp] theorem contents_putConversation :
    (store.putConversation c objects).contents = store.contents := rfl

@[simp] theorem digests_putConversation :
    (store.putConversation c objects).digests = store.digests := rfl

@[simp] theorem conversation_putContent (turnId : String) (content : TurnContent) :
    (store.putContent turnId content).conversation c = store.conversation c := rfl

@[simp] theorem conversation_deleteContent (turnId : String) :
    (store.deleteContent turnId).conversation c = store.conversation c := rfl

@[simp] theorem conversation_putDigest (digest : String) (marker : TurnMarker) :
    (store.putDigest digest marker).conversation c = store.conversation c := rfl

@[simp] theorem conversation_deleteDigest (digest : String) :
    (store.deleteDigest digest).conversation c = store.conversation c := rfl

@[simp] theorem conversation_putSubject (subject : String) (marker : TurnMarker) :
    (store.putSubject subject marker).conversation c = store.conversation c := rfl

end Store

namespace ConversationObjects

/-- How many shards the index has, as the head says. -/
def shards (objects : ConversationObjects) : Nat := objects.head.elim 0 (·.shards)

/-- The turns some shards list. -/
def listedIn (objects : ConversationObjects) (shards : Nat) : List String :=
  (List.range shards).flatMap fun shard => objects.index[shard]?.getD []

def listed (objects : ConversationObjects) : List String := objects.listedIn objects.shards

end ConversationObjects

/-- A conversation whose index lists its stored turns, each once, and whose head counts them. -/
structure Tallied (conversationId : String) (objects : ConversationObjects) : Prop where
  named : ∀ head ∈ objects.head, head.conversationId = conversationId
  counted : ∀ head ∈ objects.head, Counted head objects.turns
  once : objects.listed.Nodup
  lists : ∀ turnId, turnId ∈ objects.listed ↔ turnId ∈ objects.turns
  beyond : ∀ shard, objects.shards ≤ shard → objects.index[shard]? = none
  turns : ∀ (turnId : String) turn, objects.turns[turnId]? = some turn →
    turn.turnId = turnId ∧ turn.conversationId = conversationId ∧ turn.indexShard.isSome

/-- One conversation, as its operations leave it. -/
structure Settled (conversationId : String) (objects : ConversationObjects) : Prop
    extends Tallied conversationId objects where
  expiry : ∀ head ∈ objects.head, ∀ (turnId : String) turn, objects.turns[turnId]? = some turn →
    turn.state = .held → ∀ expiry ∈ turn.expiresAt, ∃ bound ∈ head.earliestExpiry, bound ≤ expiry

theorem tallied_new (conversationId : String) : Tallied conversationId {} where
  named := by simp
  counted := by simp
  once := by simp [listed, listedIn, shards]
  lists := by simp [listed, listedIn, shards]
  beyond := by simp
  turns := by simp

theorem settled_new (conversationId : String) : Settled conversationId {} :=
  ⟨tallied_new conversationId, by simp⟩

/-! ## Writing a turn -/

variable {objects : ConversationObjects} {store : Store}

theorem listedIn_insert {shards shard : Nat}
    {entries : List String} (turnId : String)
    (h : shard = shards ∧ entries = [] ∨
      shard + 1 = shards ∧ entries = objects.index[shard]?.getD []) :
    ({ objects with
        index := objects.index.insert shard (entries ++ [turnId]) } : ConversationObjects).listedIn
      (max shards (shard + 1)) = objects.listedIn shards ++ [turnId] := by
  have hfront : ∀ n ≤ shard, (List.range n).flatMap (fun k =>
      (objects.index.insert shard (entries ++ [turnId]))[k]?.getD []) =
        (List.range n).flatMap fun k => objects.index[k]?.getD [] := by
    intro n hn
    refine flatMap_congr fun k hk => ?_
    rw [Table.getElem?_insert, if_neg]
    have := mem_range.mp hk
    omega
  simp only [listedIn]
  rcases h with ⟨rfl, rfl⟩ | ⟨rfl, rfl⟩
  · rw [Nat.max_eq_right (Nat.le_succ _), range_succ, flatMap_append, hfront _ (Nat.le_refl _)]
    simp
  · rw [Nat.max_self, range_succ, flatMap_append, flatMap_append, hfront _ (Nat.le_refl _)]
    simp

theorem beyond_insert {shards shard : Nat} {entries : List String}
    (hbeyond : ∀ n, shards ≤ n → objects.index[n]? = none) (n : Nat)
    (hn : max shards (shard + 1) ≤ n) : (objects.index.insert shard entries)[n]? = none := by
  rw [Table.getElem?_insert, if_neg (by omega), hbeyond n (by omega)]

theorem run_listTurn {head : ConversationHead} {turn : ArchivedTurn}
    (hobjects : store.conversation turn.conversationId = objects) (hnone : turn.indexShard = none)
    (hbeyond : ∀ n, head.shards ≤ n → objects.index[n]? = none) :
    ∃ shard entries, (shard = head.shards ∧ entries = [] ∨
        shard + 1 = head.shards ∧ entries = objects.index[shard]?.getD []) ∧
      (listTurn head turn).run store =
        (({ head with shards := max head.shards (shard + 1), entries := head.entries + 1 },
          { turn with indexShard := some shard }),
        store.putConversation turn.conversationId { objects with
          index := objects.index.insert shard (entries ++ [turn.turnId])
          turns := objects.turns.insert turn.turnId { turn with indexShard := some shard } }) := by
  have hindex : ∀ shard, store.index turn.conversationId shard = objects.index[shard]?.getD [] :=
    fun shard => by rw [Store.index, hobjects]
  by_cases hfull : INDEX_SHARD_ENTRIES ≤
      (objects.index[head.shards - 1]?.getD [] : List String).length
  · refine ⟨head.shards, [], .inl ⟨rfl, rfl⟩, ?_⟩
    simp [listTurn, hnone, hindex, hfull, Store.putIndex, Store.putTurn, hobjects]
  · refine ⟨head.shards - 1, objects.index[head.shards - 1]?.getD [], ?_, ?_⟩
    · cases hshards : head.shards with
      | zero => exact .inl ⟨rfl, by rw [hbeyond _ (by omega)]; rfl⟩
      | succ n => exact .inr ⟨rfl, rfl⟩
    · simp [listTurn, hnone, hindex, hfull, Store.putIndex, Store.putTurn, hobjects]

theorem earlier_le {current candidate : Option OffsetDateTime} {moment : OffsetDateTime}
    (h : moment ∈ current ∨ moment ∈ candidate) :
    ∃ bound ∈ earlier current candidate, bound ≤ moment := by
  cases current with
  | none =>
    refine ⟨moment, ?_, Int.le_refl _⟩
    simpa [earlier] using h
  | some first =>
    cases candidate with
    | none =>
      refine ⟨moment, ?_, Int.le_refl _⟩
      simpa [earlier] using h
    | some second =>
      refine ⟨min first second, rfl, ?_⟩
      rcases h with h | h
      · cases h
        exact Int.min_le_left _ _
      · cases h
        exact Int.min_le_right _ _

namespace Tallied

variable {conversationId : String} {objects : ConversationObjects}

section

variable (h : Tallied conversationId objects)

include h

theorem exists_head {turnId : String} (hturn : turnId ∈ objects.turns) :
    ∃ head, objects.head = some head := by
  cases hhead : objects.head with
  | some head => exact ⟨head, rfl⟩
  | none =>
    have hlisted := (h.lists turnId).mpr hturn
    simp [listed, listedIn, shards, hhead] at hlisted

theorem turns_eq_empty (hhead : objects.head = none) : objects.turns = ∅ := by
  refine ExtTreeMap.ext_getElem? fun turnId => ?_
  cases hturn : objects.turns[turnId]? with
  | none => rfl
  | some turn =>
    obtain ⟨head, hsome⟩ := h.exists_head (ExtTreeMap.mem_iff_isSome_getElem?.mpr
      (by rw [hturn]; rfl))
    rw [hhead] at hsome
    cases hsome

/-- **A stored turn changes**: its new head is put, and the counts move with it. -/
theorem change {head : ConversationHead} (hhead : objects.head = some head)
    {previous next : ArchivedTurn} (hprevious : objects.turns[next.turnId]? = some previous)
    (hnext : next.conversationId = conversationId) (hshard : next.indexShard.isSome)
    {head' : ConversationHead}
    (hnumbers : head'.numbers = (head.applyCounts (some previous) (some next)).numbers)
    (hfindings : head'.findings = (head.applyCounts (some previous) (some next)).findings)
    (hid : head'.conversationId = head.conversationId) (hshards : head'.shards = head.shards) :
    Tallied conversationId { objects with
      head := some head', turns := objects.turns.insert next.turnId next } := by
  have hsame : listed { objects with
      head := some head', turns := objects.turns.insert next.turnId next } = objects.listed := by
    simp [listed, listedIn, shards, hhead, hshards]
  have hmem : next.turnId ∈ objects.turns :=
    Table.mem_of_getElem? hprevious
  refine ⟨?_, ?_, ?_, fun turnId => ?_, fun shard hshard => ?_, fun turnId turn hturn => ?_⟩
  · rintro _ ⟨⟩
    rw [hid]
    exact h.named head hhead
  · rintro _ ⟨⟩
    exact ((h.counted head hhead).changed hprevious next).congr hnumbers hfindings
  · rw [hsame]
    exact h.once
  · rw [hsame, h.lists, ExtTreeMap.mem_insert]
    refine ⟨.inr, ?_⟩
    rintro (heq | hmem')
    · rwa [← Std.LawfulEqOrd.eq_of_compare heq]
    · exact hmem'
  · refine h.beyond shard ?_
    simpa [shards, hhead, hshards] using hshard
  · obtain ⟨heq, rfl⟩ | ⟨-, hturn⟩ := of_insert hturn
    · exact ⟨heq, hnext, hshard⟩
    · exact h.turns turnId turn hturn

end

theorem add (h : Tallied conversationId objects) {next : ArchivedTurn}
    (hnew : objects.turns[next.turnId]? = none) (hnext : next.conversationId = conversationId)
    (hisSome : next.indexShard.isSome) {shard : Nat} {entries : List String}
    (hshard : shard = objects.shards ∧ entries = [] ∨
      shard + 1 = objects.shards ∧ entries = objects.index[shard]?.getD [])
    {head head' : ConversationHead} (hid : head'.conversationId = conversationId)
    (hcounted : Counted head objects.turns)
    (hnumbers : head'.numbers = (head.applyCounts none (some next)).numbers)
    (hfindings : head'.findings = (head.applyCounts none (some next)).findings)
    (hshards : head'.shards = max objects.shards (shard + 1)) :
    Tallied conversationId {
      head := some head'
      index := objects.index.insert shard (entries ++ [next.turnId])
      turns := objects.turns.insert next.turnId next } := by
  have hlisted : listed {
      head := some head'
      index := objects.index.insert shard (entries ++ [next.turnId])
      turns := objects.turns.insert next.turnId next } = objects.listed ++ [next.turnId] := by
    have hinsert := listedIn_insert next.turnId hshard
    simp only [listed, shards, elim_some, hshards]
    exact hinsert
  have hout : next.turnId ∉ objects.listed := by
    rw [h.lists, ExtTreeMap.mem_iff_isSome_getElem?, hnew]
    simp
  refine ⟨?_, ?_, ?_, fun turnId => ?_, fun n hn => ?_, fun turnId turn hturn => ?_⟩
  · rintro _ ⟨⟩
    exact hid
  · rintro _ ⟨⟩
    exact (hcounted.added hnew next).congr hnumbers hfindings
  · rw [hlisted]
    exact nodup_append.mpr ⟨h.once, nodup_singleton _, fun a ha b hb hab => hout (by
      rw [mem_singleton] at hb
      rwa [← hb, ← hab])⟩
  · rw [hlisted, mem_append, h.lists, mem_singleton, ExtTreeMap.mem_insert,
      Std.LawfulEqCmp.compare_eq_iff_eq, or_comm, eq_comm]
  · exact beyond_insert h.beyond n (by
      simpa [shards, hshards] using hn)
  · obtain ⟨heq, rfl⟩ | ⟨-, hturn⟩ := of_insert hturn
    · exact ⟨heq, hnext, hisSome⟩
    · exact h.turns turnId turn hturn

end Tallied

/-- **A stored turn changes** in a settled conversation, with a hint that is no later. -/
theorem Settled.change {conversationId : String}
    (h : Settled conversationId objects) {head : ConversationHead}
    (hhead : objects.head = some head) {previous next : ArchivedTurn}
    (hprevious : objects.turns[next.turnId]? = some previous)
    (hnext : next.conversationId = conversationId) (hshard : next.indexShard.isSome)
    {head' : ConversationHead}
    (hnumbers : head'.numbers = (head.applyCounts (some previous) (some next)).numbers)
    (hfindings : head'.findings = (head.applyCounts (some previous) (some next)).findings)
    (hid : head'.conversationId = head.conversationId) (hshards : head'.shards = head.shards)
    (hexpiry : ∀ bound ∈ head.earliestExpiry, ∃ bound' ∈ head'.earliestExpiry, bound' ≤ bound)
    (hheld : next.state = .held → ∀ expiry ∈ next.expiresAt,
      ∃ bound ∈ head'.earliestExpiry, bound ≤ expiry) :
    Settled conversationId { objects with
      head := some head', turns := objects.turns.insert next.turnId next } := by
  refine ⟨h.toTallied.change hhead hprevious hnext hshard hnumbers hfindings hid hshards, ?_⟩
  rintro _ ⟨⟩ turnId turn hturn hstate expiry hmoment
  obtain ⟨-, rfl⟩ | ⟨-, hturn⟩ := of_insert hturn
  · exact hheld hstate expiry hmoment
  · obtain ⟨bound, hbound, hle⟩ := h.expiry head hhead turnId turn hturn hstate expiry hmoment
    obtain ⟨bound', hbound', hle'⟩ := hexpiry bound hbound
    exact ⟨bound', hbound', Int.le_trans hle' hle⟩

/-! ## Writing a turn, alone -/

/-- What writing a turn does beside its conversation. -/
structure Beside (conversationId : String) (store store' : Store) : Prop where
  conversation : ∀ c, conversationId ≠ c → store'.conversation c = store.conversation c
  contents : store'.contents = store.contents
  digests : store'.digests = store.digests

theorem numbers_congr {head other : ConversationHead} (hturns : other.turns = head.turns)
    (hpending : other.pending = head.pending) (happroved : other.approved = head.approved)
    (hrejected : other.rejected = head.rejected) (herased : other.erased = head.erased)
    (hfindings : other.findings = head.findings) : other.numbers = head.numbers := by
  funext counter
  cases counter <;> simp [ConversationHead.numbers, *]

/-- The head as `writeTurn` puts it. -/
def written (head : ConversationHead) (previous : Option ArchivedTurn) (turn : ArchivedTurn) :
    ConversationHead :=
  let head := head.applyCounts previous (some turn)
  { head with
    lastSeen := max head.lastSeen turn.receivedAt
    earliestExpiry := earlier head.earliestExpiry turn.expiresAt }

theorem run_writeTurn (store : Store) (turn : ArchivedTurn) (previous : Option ArchivedTurn) :
    ∃ store₁ : Store, (∀ c, store₁.conversation c = (store.putTurn turn).conversation c) ∧
      store₁.contents = store.contents ∧ store₁.digests = store.digests ∧
        (writeTurn turn previous).run store =
          let head := ((store.conversation turn.conversationId).head).getD
            (.opening turn.conversationId turn.receivedAt)
          let listed := (listTurn head turn).run store₁
          (listed.1.2, listed.2.putHead (written listed.1.1 previous listed.1.2)) := by
  by_cases hsubject : turn.policy.consent.subject = ""
  · refine ⟨store.putTurn turn, fun _ => rfl, rfl, rfl, ?_⟩
    simp [writeTurn, hsubject, Store.head, Store.putTurn, written]
  · refine ⟨(store.putTurn turn).putSubject turn.policy.consent.subject
      ⟨turn.turnId, turn.conversationId⟩, fun _ => rfl, rfl, rfl, ?_⟩
    simp [writeTurn, hsubject, Store.head, Store.putTurn, written]

theorem tallied_writeListed (turn : ArchivedTurn) {previous : ArchivedTurn}
    (h : Tallied turn.conversationId (store.conversation turn.conversationId))
    (hprevious : store.turn turn.conversationId turn.turnId = some previous)
    (hshard : turn.indexShard.isSome) :
    Beside turn.conversationId store ((writeTurn turn (some previous)).run store).2 ∧
      Tallied turn.conversationId
        (((writeTurn turn (some previous)).run store).2.conversation turn.conversationId) ∧
      ∃ head head', store.head turn.conversationId = some head ∧
        head'.earliestExpiry = earlier head.earliestExpiry turn.expiresAt ∧
        ((writeTurn turn (some previous)).run store).2.conversation turn.conversationId =
          { store.conversation turn.conversationId with
            head := some head'
            turns := (store.conversation turn.conversationId).turns.insert turn.turnId turn } := by
  obtain ⟨store₁, hconversation, hcontents, hdigests, hrun⟩ :=
    run_writeTurn store turn (some previous)
  have hobjects₁ : store₁.conversation turn.conversationId =
      { store.conversation turn.conversationId with
        turns := (store.conversation turn.conversationId).turns.insert turn.turnId turn } := by
    rw [hconversation]
    simp
  obtain ⟨head, hhead⟩ := h.exists_head
    (ExtTreeMap.mem_iff_isSome_getElem?.mpr (by rw [← Store.turn, hprevious]; rfl))
  have hlist : (listTurn head turn).run store₁ = ((head, turn), store₁) := by
    simp [listTurn, hshard]
  have halike := head.alike_applyCounts (some previous) turn
  have hid : (written head (some previous) turn).conversationId = turn.conversationId :=
    halike.conversationId.trans (h.named head hhead)
  have hput : ((writeTurn turn (some previous)).run store).2.conversation turn.conversationId =
      { store.conversation turn.conversationId with
        head := some (written head (some previous) turn)
        turns := (store.conversation turn.conversationId).turns.insert turn.turnId turn } := by
    rw [hrun]
    simp only [hhead, getD_some, hlist, Store.conversation_putHead, hid, if_pos, hobjects₁]
  refine ⟨⟨fun c hc => ?_, ?_, ?_⟩, ?_, head, _, hhead, ?_, hput⟩
  · rw [hrun]
    simp only [hhead, getD_some, hlist, Store.conversation_putHead, hid, hc, if_false]
    rw [hconversation, Store.conversation_putTurn, if_neg hc]
  · rw [hrun]
    simp only [hhead, getD_some, hlist]
    exact hcontents
  · rw [hrun]
    simp only [hhead, getD_some, hlist]
    exact hdigests
  · rw [hput]
    exact h.change hhead hprevious rfl hshard (numbers_congr rfl rfl rfl rfl rfl rfl) rfl
      halike.conversationId halike.shards
  · exact congrArg (fun held => earlier held turn.expiresAt) halike.earliestExpiry

theorem tallied_writeUnlisted (turn : ArchivedTurn) {previous : Option ArchivedTurn}
    {turns : BTreeMap String ArchivedTurn} (h : Tallied turn.conversationId objects)
    (hnew : objects.turns[turn.turnId]? = none)
    (hstore : store.conversation turn.conversationId = { objects with turns })
    (hturns : ∀ turnId, turn.turnId ≠ turnId → turns[turnId]? = objects.turns[turnId]?)
    (hshard : turn.indexShard = none) (hprevious : previous = none ∨ objects.turns = ∅) :
    Beside turn.conversationId store ((writeTurn turn previous).run store).2 ∧
      Tallied turn.conversationId
        (((writeTurn turn previous).run store).2.conversation turn.conversationId) ∧
      ∃ shard head', (((writeTurn turn previous).run store).2.conversation
          turn.conversationId).head = some head' ∧
        head'.earliestExpiry =
          earlier (objects.head.bind (·.earliestExpiry)) turn.expiresAt ∧
        (((writeTurn turn previous).run store).2.conversation turn.conversationId).turns =
          objects.turns.insert turn.turnId { turn with indexShard := some shard } := by
  obtain ⟨store₁, hconversation, hcontents, hdigests, hrun⟩ := run_writeTurn store turn previous
  have hobjects₁ : store₁.conversation turn.conversationId =
      { objects with turns := turns.insert turn.turnId turn } := by
    rw [hconversation]
    simp [hstore]
  rw [hrun]
  simp only [hstore]
  generalize hhead : objects.head.getD (.opening turn.conversationId turn.receivedAt) = head
    at hrun ⊢
  have hshards : head.shards = objects.shards := by
    rw [← hhead, shards]
    cases objects.head <;> rfl
  have hearliest : head.earliestExpiry = objects.head.bind (·.earliestExpiry) := by
    rw [← hhead]
    cases objects.head <;> rfl
  have hid : head.conversationId = turn.conversationId := by
    rw [← hhead]
    cases hheld : objects.head with
    | none => rfl
    | some held => exact h.named held hheld
  have hcounted : Counted head objects.turns := by
    rw [← hhead]
    cases hheld : objects.head with
    | none =>
      rw [h.turns_eq_empty hheld]
      exact Counted.opening turn.conversationId turn.receivedAt
    | some held => exact h.counted held hheld
  obtain ⟨shard, entries, hentries, hlist⟩ := run_listTurn hobjects₁ hshard (by
    rw [hshards]
    exact h.beyond)
  have hinsert : (turns.insert turn.turnId turn).insert turn.turnId
      { turn with indexShard := some shard } =
        objects.turns.insert turn.turnId { turn with indexShard := some shard } := by
    refine ExtTreeMap.ext_getElem? fun k => ?_
    simp only [Table.getElem?_insert]
    split
    · rfl
    · exact hturns k ‹_›
  dsimp only at hlist
  rw [hinsert] at hlist
  simp only [hlist]
  generalize hlisted : ({ head with
    shards := max head.shards (shard + 1)
    entries := head.entries + 1 } : ConversationHead) = listed
  have hcounted' : Counted listed objects.turns := by
    rw [← hlisted]
    exact hcounted.congr (numbers_congr rfl rfl rfl rfl rfl rfl) rfl
  have halike := listed.alike_applyCounts previous { turn with indexShard := some shard }
  have hid' : (written listed previous { turn with indexShard := some shard }).conversationId =
      turn.conversationId := by
    refine halike.conversationId.trans ?_
    rw [← hlisted]
    exact hid
  refine ⟨⟨fun c hc => ?_, hcontents, hdigests⟩, ?_, shard,
    written listed previous { turn with indexShard := some shard }, ?_, ?_, ?_⟩
  · rw [Store.conversation_putHead, hid', if_neg hc, Store.conversation_putConversation,
      if_neg hc, hconversation, Store.conversation_putTurn, if_neg hc]
  · rw [Store.conversation_putHead, hid', if_pos rfl, Store.conversation_putConversation,
      if_pos rfl]
    obtain ⟨hnumbers, hfindings⟩ := hcounted'.uncounted hprevious
      { turn with indexShard := some shard }
    refine @Tallied.add _ _ h { turn with indexShard := some shard } hnew rfl rfl shard entries
      (by rwa [hshards] at hentries) listed _ hid' hcounted' (hnumbers ▸ ?_) ?_ ?_
    · exact numbers_congr rfl rfl rfl rfl rfl rfl
    · exact hfindings
    · rw [← hshards]
      refine halike.shards.trans ?_
      rw [← hlisted]
  · rw [Store.conversation_putHead, hid', if_pos rfl]
  · rw [← hearliest]
    refine congrArg (fun held => earlier held turn.expiresAt) (halike.earliestExpiry.trans ?_)
    rw [← hlisted]
  · rw [Store.conversation_putHead, hid', if_pos rfl, Store.conversation_putConversation,
      if_pos rfl]

theorem Settled.earlier_le {conversationId : String} {objects : ConversationObjects}
    (h : Settled conversationId objects) (next : ArchivedTurn) (turnId : String)
    (turn : ArchivedTurn) (hturn : (objects.turns.insert next.turnId next)[turnId]? = some turn)
    (hheld : turn.state = .held) (expiry : OffsetDateTime) (hexpiry : expiry ∈ turn.expiresAt) :
    ∃ bound ∈ earlier (objects.head.bind (·.earliestExpiry)) next.expiresAt, bound ≤ expiry := by
  obtain ⟨-, rfl⟩ | ⟨-, hturn⟩ := of_insert hturn
  · exact Conversations.earlier_le (.inr hexpiry)
  · obtain ⟨head, hhead⟩ := h.exists_head
      (Table.mem_of_getElem? hturn)
    obtain ⟨bound, hbound, hle⟩ := h.expiry head hhead turnId turn hturn hheld expiry hexpiry
    obtain ⟨bound', hbound', hle'⟩ := @Conversations.earlier_le head.earliestExpiry next.expiresAt
      bound (.inl hbound)
    rw [hhead]
    exact ⟨bound', hbound', Int.le_trans hle' hle⟩

theorem settled_writeTurn {store : Store} {turn : ArchivedTurn} {previous : Option ArchivedTurn}
    (h : Settled turn.conversationId (store.conversation turn.conversationId))
    (hprevious : store.turn turn.conversationId turn.turnId = previous)
    (hshard : turn.indexShard = previous.bind (·.indexShard)) :
    Beside turn.conversationId store ((writeTurn turn previous).run store).2 ∧
      Settled turn.conversationId
        (((writeTurn turn previous).run store).2.conversation turn.conversationId) ∧
      ∃ shard, (((writeTurn turn previous).run store).2.conversation turn.conversationId).turns =
        (store.conversation turn.conversationId).turns.insert turn.turnId
          { turn with indexShard := some shard } := by
  cases previous with
  | some previous =>
    obtain ⟨-, -, hisSome⟩ := h.turns turn.turnId previous hprevious
    obtain ⟨shard, hprevshard⟩ := isSome_iff_exists.mp hisSome
    rw [bind_some, hprevshard] at hshard
    obtain ⟨hbeside, htallied, head, head', hhead, hearliest, hput⟩ :=
      tallied_writeListed turn h.toTallied hprevious (by rw [hshard]; rfl)
    refine ⟨hbeside, ⟨htallied, ?_⟩, shard, ?_⟩
    · rw [hput]
      rintro _ ⟨⟩ turnId other hturn hheld expiry hexpiry
      have hle := h.earlier_le turn turnId other hturn hheld expiry hexpiry
      rw [← Store.head, hhead] at hle
      rw [hearliest]
      exact hle
    · rw [hput]
      simp [← hshard]
  | none =>
    obtain ⟨hbeside, htallied, shard, head', hhead, hearliest, hturns⟩ :=
      tallied_writeUnlisted turn h.toTallied hprevious rfl (fun _ _ => rfl) hshard (.inl rfl)
    refine ⟨hbeside, ⟨htallied, ?_⟩, shard, hturns⟩
    rw [hhead, hturns]
    rintro _ ⟨⟩ turnId other hturn hheld expiry hexpiry
    rw [hearliest]
    exact h.earlier_le { turn with indexShard := some shard } turnId other hturn hheld expiry
      hexpiry

end Aiwatcher.Conversations
