import Aiwatcher.Conversations.Erased

/-!
# Aiwatcher.Conversations.Swept

Erasing a conversation, a subject or what has run out, and what every run of the archive keeps:
the counts are those of the stored turns, and a sweep at any moment finds whatever has run out.
-/

namespace Aiwatcher.Conversations

open Library Prog List Std

variable {reader : Reader} {messages : List (String × String)} {store store' : Store} {c : String}

/-! ## What no erasure touches -/

section

variable {objects : String → BTreeMap Nat (List String)}

theorem keeps_index_recount (c : String) (previous next : ArchivedTurn) :
    (recount c previous next).Keeps fun s => ∀ c, (s.conversation c).index = objects c := by
  refine (keeps_read _).bind fun held => ?_
  cases held with
  | none => exact keeps_pure _
  | some head =>
    refine keeps_write fun s hs c' => ?_
    rw [Store.conversation_putHead]
    split <;> exact hs c'

theorem keeps_index_eraseTurn (c turnId : String) (reason : ErasureReason) («by» : String)
    (now : OffsetDateTime) : (eraseTurn c turnId reason «by» now).Keeps
      fun s => ∀ c, (s.conversation c).index = objects c := by
  refine (keeps_read _).bind fun held => ?_
  cases held with
  | none => exact keeps_pure _
  | some previous =>
    dsimp only
    split
    · exact keeps_pure _
    · refine (keeps_write fun s hs => hs).bind fun _ => (keeps_write fun s hs => hs).bind
        fun _ => (keeps_write fun s hs c' => ?_).bind fun _ =>
          (keeps_index_recount c previous _).bind fun _ => keeps_pure _
      rw [Store.conversation_putTurn]
      split <;> exact hs c'

theorem keeps_withdrawVersion {P : Store → Prop} (hshard : ∀ jobId shard s, P s →
    P (s.deleteShard jobId shard)) (hmanifest : ∀ manifest s, P s → P (s.putManifest manifest))
    (conversations : List String) («by» name : String) (now : OffsetDateTime)
    (summary : ExportVersionSummary) :
    (withdrawVersion conversations «by» name now summary).Keeps P := by
  unfold withdrawVersion
  split
  · exact keeps_pure _
  · refine (keeps_read _).bind fun held => ?_
    cases held with
    | none => exact keeps_pure _
    | some manifest =>
      dsimp only
      split
      · exact keeps_pure _
      · have hshards : (manifest.shards.forM fun shard =>
            write (.deleteShard manifest.jobId shard.index) : Prog Store Unit).Keeps P :=
          keeps_forM (fun shard =>
            keeps_write (hshard manifest.jobId (Jobs.ShardRef.index shard))) _
        exact hshards.bind fun _ => (keeps_write (hmanifest _)).bind fun _ => keeps_pure _

theorem keeps_withdrawFor {P : Store → Prop} (hshard : ∀ jobId shard s, P s →
    P (s.deleteShard jobId shard)) (hmanifest : ∀ manifest s, P s → P (s.putManifest manifest))
    (hindex : ∀ index s, P s → P (s.putExportIndex index)) (conversations : List String)
    («by» : String) (now : OffsetDateTime) : (withdrawFor conversations «by» now).Keeps P := by
  unfold withdrawFor
  split
  · exact keeps_pure _
  · refine (keeps_read _).bind fun names => keeps_foldlM (fun withdrawn name => ?_) names 0
    refine (keeps_read _).bind fun held => ?_
    cases held with
    | none => exact keeps_pure _
    | some index =>
      refine (keeps_mapM (fun summary => keeps_withdrawVersion hshard hmanifest _ _ _ _ _)
        _).bind fun versions => ?_
      dsimp only
      split
      · exact keeps_pure _
      · exact (keeps_write (hindex _)).bind fun _ => keeps_pure _

end

theorem Sound.withdrawFor (h : Sound reader messages store) (conversations : List String)
    («by» : String) (now : OffsetDateTime) :
    Sound reader messages ((withdrawFor conversations «by» now).run store).2 ∧
      Erases store ((withdrawFor conversations «by» now).run store).2 := by
  have hkept := (keeps_withdrawFor (P := fun s => s.conversations = store.conversations ∧
    s.contents = store.contents) (fun _ _ _ hs => hs) (fun _ _ hs => hs) (fun _ _ hs => hs)
      conversations «by» now).run ⟨rfl, rfl⟩
  refine ⟨h.congr hkept.1 hkept.2, fun c => ?_, fun c turnId => .inl ?_⟩
  · rw [Store.conversation, hkept.1, Store.conversation]
  · rw [Store.turn, Store.conversation, hkept.1, Store.turn, Store.conversation]

/-! ## Erasing what an index lists -/

/-- A turn that is stored is erased, if what is asked of its expiry holds. -/
def Gone (due : Option OffsetDateTime → Prop) (c turnId : String) (store : Store) : Prop :=
  ∀ turn, store.turn c turnId = some turn → due turn.expiresAt → turn.state = .erased

variable {D : Option OffsetDateTime → Prop}

theorem Gone.erases {turnId : String} (h : Gone D c turnId store)
    (herases : Erases store store') : Gone D c turnId store' := by
  intro turn hturn hdue
  cases hstate : turn.state with
  | erased => rfl
  | held =>
    have hbefore := h turn (herases.held hturn hstate) hdue
    rw [hstate] at hbefore
    cases hbefore

/-- **Every turn an index lists** is seen to, where each round sees to its own. -/
theorem Sound.forListed {α : Type} {f : α → String → Prog Store α}
    (hindex : ∀ a turnId store, (((f a turnId).run store).2.conversation c).index =
      (store.conversation c).index)
    (hround : ∀ a turnId store, Sound reader messages store →
      Sound reader messages ((f a turnId).run store).2 ∧
      Erases store ((f a turnId).run store).2 ∧ Gone D c turnId ((f a turnId).run store).2)
    (h : Sound reader messages store) {shards : Nat}
    (hlisted : ∀ turnId turn, store.turn c turnId = some turn → turn.state = .held →
      turnId ∈ (store.conversation c).listedIn shards) (a : α) :
    Sound reader messages ((Conversations.forListed c shards a f).run store).2 ∧
      Erases store ((Conversations.forListed c shards a f).run store).2 ∧
      ∀ turnId, Gone D c turnId ((Conversations.forListed c shards a f).run store).2 := by
  rw [run_forListed hindex, ← run_foldlM]
  obtain ⟨hsound, herases, hgone⟩ := foldlM_sees (I := Sound reader messages) (R := Erases)
    (Q := Gone D c) Erases.refl (fun _ _ _ => Erases.trans) (fun _ _ _ he hg => hg.erases he)
    (fun turnId _ b t ht _ => hround b turnId t ht) a h
  refine ⟨hsound, herases, fun turnId turn hturn hdue => ?_⟩
  cases hstate : turn.state with
  | erased => rfl
  | held =>
    have hbefore := hlisted turnId turn (herases.held hturn hstate) hstate
    have hgone' := hgone turnId hbefore turn hturn hdue
    rw [hstate] at hgone'
    cases hgone'

theorem Settled.mem_listedIn {objects : ConversationObjects} (h : Settled c objects)
    {head : ConversationHead} (hhead : objects.head = some head) {turnId : String}
    {turn : ArchivedTurn} (hturn : objects.turns[turnId]? = some turn) :
    turnId ∈ objects.listedIn head.shards := by
  have hlisted := (h.lists turnId).mpr
    (Table.mem_of_getElem? hturn)
  rwa [ConversationObjects.listed, ConversationObjects.shards, hhead] at hlisted

theorem run_eraseTurn_index (c' turnId : String) (reason : ErasureReason) («by» : String)
    (now : OffsetDateTime) (store : Store) :
    (((eraseTurn c' turnId reason «by» now).run store).2.conversation c).index =
      (store.conversation c).index :=
  (keeps_index_eraseTurn c' turnId reason «by» now).run (fun _ => rfl) c

/-! ## Erasing a conversation or a subject -/

theorem Sound.eraseConversation (hdistinct : reader.Distinct messages)
    (h : Sound reader messages store) (c «by» : String) (now : OffsetDateTime) :
    Sound reader messages ((eraseConversation c «by» now).run store).2 ∧
      Erases store ((eraseConversation c «by» now).run store).2 ∧
      (((eraseConversation c «by» now).run store).1.toOption.isSome → ∀ turnId,
        Gone (fun _ => True) c turnId ((eraseConversation c «by» now).run store).2) := by
  unfold Conversations.eraseConversation
  split
  · exact ⟨h, .refl _, nofun⟩
  · simp only [run_bind, run_read]
    split
    · exact ⟨h, .refl _, nofun⟩
    · rename_i head hhead
      obtain ⟨hsound, herases, hgone⟩ := Sound.forListed (D := fun _ => True)
        (f := fun report turnId => ErasureReport.count report <$>
          Conversations.eraseTurn c turnId .request «by» now)
        (fun report turnId store => by
          rw [run_map]
          exact run_eraseTurn_index c turnId .request «by» now store)
        (fun report turnId store hs => by
          rw [run_map]
          obtain ⟨hsound, herases, hgone⟩ := hs.eraseTurn hdistinct turnId .request «by» now
          exact ⟨hsound, herases, fun turn hturn _ => hgone turn hturn⟩)
        h (fun turnId turn hturn _ => (h.settled c).mem_listedIn hhead hturn)
        ({ conversationsTouched := 1 } : ErasureReport)
      obtain ⟨hsound', herases'⟩ := hsound.refreshExpiry c
      obtain ⟨hsound'', herases''⟩ := hsound'.withdrawFor [c] «by» now
      simp only [run_bind, run_pure]
      exact ⟨hsound'', (herases.trans herases').trans herases'', fun _ turnId =>
        ((hgone turnId).erases herases').erases herases''⟩

/-- **A subject** that is erased has no turn left that its markers name. -/
theorem Sound.eraseSubject (hdistinct : reader.Distinct messages) (h : Sound reader messages store)
    (subject «by» : String) (now : OffsetDateTime) :
    Sound reader messages ((eraseSubject subject «by» now).run store).2 ∧
      Erases store ((eraseSubject subject «by» now).run store).2 := by
  unfold Conversations.eraseSubject
  split
  · exact ⟨h, .refl _⟩
  · rw [run_bind, run_read, run_bind]
    generalize hfold : (List.foldlM _ _ _ : Prog Store _) = fold
    obtain ⟨hsound, herases, -⟩ : Sound reader messages (fold.run store).2 ∧
        Erases store (fold.run store).2 ∧ ∀ entry ∈ (store.subject subject).keys, True := by
      rw [← hfold]
      refine foldlM_sees (I := Sound reader messages) (R := Erases) (Q := fun _ _ => True)
        Erases.refl (fun _ _ _ => Erases.trans) (fun _ _ _ _ _ => trivial)
        (fun entry _ done store hs _ => ?_) _ h
      rw [run_bind, run_read]
      cases (store.subject subject)[entry]? with
      | none => exact ⟨hs, .refl _, trivial⟩
      | some marker =>
        obtain ⟨hsound, herases, -⟩ := hs.eraseTurn (c := marker.conversationId) hdistinct
          marker.turnId .request «by» now
        rw [run_bind, run_pure]
        exact ⟨hsound, herases, trivial⟩
    rw [run_bind, run_forM]
    generalize hleft : List.foldl _ _ _ = left
    obtain ⟨hsound', herases'⟩ : Sound reader messages left ∧ Erases (fold.run store).2 left := by
      rw [← hleft]
      generalize ((fold.run store).1.2).keys = touched
      clear hleft hfold herases h
      generalize (fold.run store).2 = store at hsound ⊢
      induction touched generalizing store with
      | nil => exact ⟨hsound, .refl _⟩
      | cons c touched ih =>
        obtain ⟨hkept, herases⟩ := hsound.refreshExpiry c
        obtain ⟨hkept', herases'⟩ := ih _ hkept
        exact ⟨hkept', herases.trans herases'⟩
    rw [run_bind, run_pure]
    obtain ⟨hsound'', herases''⟩ := hsound'.withdrawFor _ «by» now
    exact ⟨hsound'', (herases.trans herases').trans herases''⟩

/-! ## Sweeping -/

theorem lt_of_all {expiry : Option OffsetDateTime} {now : OffsetDateTime}
    (h : expiry.all (now < ·) = true) : ¬ ∃ moment ∈ expiry, moment ≤ now := by
  rintro ⟨moment, rfl, hle⟩
  simp only [Option.all_some, decide_eq_true_eq] at h
  exact Int.not_le.mpr h hle

/-- **One conversation** is swept: no turn of it that has run out is held, if its head was as it
stood before anything else was swept. -/
theorem Sound.sweepConversation (hdistinct : reader.Distinct messages) {first : Store}
    (hfirst : Sound reader messages first) (herases : Erases first store)
    (h : Sound reader messages store)
    {head : ConversationHead} (hhead : first.head c = some head) (now clock : OffsetDateTime)
    (swept : ErasureReport × BTreeMap String Unit) :
    Sound reader messages ((sweepConversation now clock swept head).run store).2 ∧
      Erases store ((sweepConversation now clock swept head).run store).2 ∧
      ∀ turnId, Gone (fun expiry => ∃ moment ∈ expiry, moment ≤ now) c turnId
        ((sweepConversation now clock swept head).run store).2 := by
  have hid : head.conversationId = c := (hfirst.settled c).named head hhead
  subst hid
  unfold Conversations.sweepConversation
  split
  · rename_i hlater
    refine ⟨h, .refl _, fun turnId turn hturn hdue => ?_⟩
    cases hstate : turn.state with
    | erased => rfl
    | held =>
      obtain ⟨expiry, hexpiry, hle⟩ := hdue
      obtain ⟨bound, hbound, hle'⟩ := (hfirst.settled _).expiry head hhead turnId turn
        (herases.held hturn hstate) hstate expiry hexpiry
      exact absurd ⟨bound, hbound, Int.le_trans hle' hle⟩ (lt_of_all hlater)
  · rw [run_bind]
    generalize hloop : (Conversations.forListed _ _ _ _ : Prog Store _) = loop
    obtain ⟨hsound, herases', hgone⟩ : Sound reader messages (loop.run store).2 ∧
        Erases store (loop.run store).2 ∧ ∀ turnId,
          Gone (fun expiry => ∃ moment ∈ expiry, moment ≤ now) head.conversationId turnId
            (loop.run store).2 := by
      rw [← hloop]
      refine h.forListed (fun swept turnId store => ?_) (fun swept turnId store hs => ?_)
        (fun turnId turn hturn hheld => ?_) _
      · rw [run_bind, run_read]
        cases hturn : store.turn head.conversationId turnId with
        | none => rfl
        | some turn =>
          dsimp only
          split
          · rfl
          · rw [run_bind, run_pure]
            exact run_eraseTurn_index _ _ _ _ _ _
      · rw [run_bind, run_read]
        cases hturn : store.turn head.conversationId turnId with
        | none => exact ⟨hs, .refl _, fun turn hsome => by simp [hturn] at hsome⟩
        | some turn =>
          dsimp only
          split
          · rename_i hlater
            refine ⟨hs, .refl _, fun other hsome hdue => ?_⟩
            rw [run_pure, hturn, Option.some.injEq] at hsome
            rw [← hsome] at hdue
            exact absurd hdue (lt_of_all hlater)
          · obtain ⟨hsound, herases, hgone⟩ := hs.eraseTurn (c := head.conversationId) hdistinct
              turnId .expired "retention" clock
            rw [run_bind, run_pure]
            exact ⟨hsound, herases, fun turn hturn _ => hgone turn hturn⟩
      · have hlisted := (hfirst.settled _).mem_listedIn hhead (herases.held hturn hheld)
        rwa [ConversationObjects.listedIn, ← herases.index] at hlisted
    obtain ⟨hsound', herases''⟩ := hsound.refreshExpiry head.conversationId
    rw [run_bind]
    split
    · exact ⟨hsound', herases'.trans herases'', fun turnId => (hgone turnId).erases herases''⟩
    · exact ⟨hsound', herases'.trans herases'', fun turnId => (hgone turnId).erases herases''⟩

theorem run_conversations (store : Store) : ∃ heads, conversations.run store = (heads, store) ∧
    ∀ head, head ∈ heads ↔ ∃ c, store.head c = some head := by
  refine ⟨_, by rw [conversations, run_bind, run_read, run_bind, run_mapM_read, run_pure], ?_⟩
  intro head
  simp only [mem_mergeSort, mem_filterMap, mem_map, id_eq, exists_eq_right]
  refine ⟨fun ⟨c, _, hhead⟩ => ⟨c, hhead⟩, fun ⟨c, hhead⟩ => ⟨c, ?_, hhead⟩⟩
  rw [ExtTreeMap.mem_keys, ExtTreeMap.mem_iff_isSome_getElem?]
  cases hobjects : store.conversations[c]? with
  | some objects => rfl
  | none =>
    rw [Store.head, Store.conversation, hobjects] at hhead
    cases hhead

/-- Nothing that has run out is held, and what is not held is not stored. -/
def SweptClean (now : OffsetDateTime) (store : Store) : Prop :=
  ∀ c turnId turn, store.turn c turnId = some turn → (∃ expiry ∈ turn.expiresAt, expiry ≤ now) →
    turn.state = .erased ∧ store.contents[turnId]? = none

section

variable (hdistinct : reader.Distinct messages)

include hdistinct

theorem Sound.sweep (h : Sound reader messages store) (now clock : OffsetDateTime) :
    Sound reader messages ((sweep now clock).run store).2 ∧
      Erases store ((sweep now clock).run store).2 ∧
      SweptClean now ((sweep now clock).run store).2 := by
  obtain ⟨heads, hrun, hheads⟩ := run_conversations store
  rw [Conversations.sweep, run_bind, hrun, run_bind]
  have hround : ∀ head ∈ heads, ∀ swept t, Sound reader messages t → Erases store t →
      Sound reader messages ((Conversations.sweepConversation now clock swept head).run t).2 ∧
        Erases t ((Conversations.sweepConversation now clock swept head).run t).2 ∧
        ∀ turnId, Gone (fun expiry => ∃ moment ∈ expiry, moment ≤ now) head.conversationId turnId
          ((Conversations.sweepConversation now clock swept head).run t).2 := by
    intro head hmem swept t ht herases
    obtain ⟨c, hhead⟩ := (hheads head).mp hmem
    rw [(h.settled c).named head hhead]
    exact Sound.sweepConversation hdistinct h herases ht hhead now clock swept
  obtain ⟨hsound, herases, hgone⟩ := foldlM_sees (I := Sound reader messages) (R := Erases)
    (Q := fun (head : ConversationHead) s => ∀ turnId,
      Gone (fun expiry => ∃ moment ∈ expiry, moment ≤ now) head.conversationId turnId s)
    Erases.refl (fun _ _ _ => Erases.trans)
    (fun _ _ _ herases hgone turnId => (hgone turnId).erases herases) hround
    (({}, ∅) : ErasureReport × BTreeMap String Unit) h
  generalize (heads.foldlM (Conversations.sweepConversation now clock)
    (({}, ∅) : ErasureReport × BTreeMap String Unit)) = loop at hsound herases hgone ⊢
  obtain ⟨hsound', herases'⟩ := hsound.withdrawFor (loop.run store).1.2.keys "retention" clock
  rw [run_bind, run_pure]
  refine ⟨hsound', herases.trans herases', fun c turnId turn hturn hdue => ?_⟩
  have herased : turn.state = .erased := by
    cases hstate : turn.state with
    | erased => rfl
    | held =>
      have hbefore := (herases.trans herases').held hturn hstate
      obtain ⟨head, hhead⟩ := (h.settled c).exists_head
        (ExtTreeMap.mem_iff_isSome_getElem?.mpr (by rw [← Store.turn, hbefore]; rfl))
      have hgone' := hgone head ((hheads head).mpr ⟨c, hhead⟩) turnId
      rw [(h.settled c).named head hhead] at hgone'
      have hheld := (hgone'.erases herases') turn hturn hdue
      rw [hstate] at hheld
      cases hheld
  refine ⟨herased, ?_⟩
  have hsealed := hsound'.sealed c turnId turn hturn
  rw [herased] at hsealed
  simpa using hsealed

/-! ## Every run -/

/-- An operation on the archive, with the moments it takes for now. -/
inductive Act where
  | record (policy : ArchivePolicy) (request : RecordTurnRequest) (now : OffsetDateTime)
  | review (conversationId turnId reviewer : String) (request : ReviewRequest)
      (now : OffsetDateTime)
  | eraseConversation (conversationId «by» : String) (now : OffsetDateTime)
  | eraseSubject (subject «by» : String) (now : OffsetDateTime)
  | sweep (now clock : OffsetDateTime)

/-- What an operation makes of the store. -/
def applied (reader : Reader) (store : Store) : Act → Store
  | .record policy request now => ((record reader policy request now).run store).2
  | .review conversationId turnId reviewer request now =>
    ((review conversationId turnId reviewer request now).run store).2
  | .eraseConversation conversationId «by» now =>
    ((eraseConversation conversationId «by» now).run store).2
  | .eraseSubject subject «by» now => ((eraseSubject subject «by» now).run store).2
  | .sweep now clock => ((sweep now clock).run store).2

def archive (reader : Reader) : Machine Store Act Unit where
  step store act := some ([], applied reader store act)

/-- The messages a run records, if nothing is wrong with the request. -/
def recorded (acts : List Act) : List (String × String) :=
  acts.filterMap fun
    | .record _ request _ =>
      if request.validate = .ok () then some (request.conversationId, request.messageId)
      else none
    | _ => none

theorem Sound.step (h : Sound reader messages store) (act : Act)
    (hact : ∀ message ∈ recorded [act], message ∈ messages) :
    Sound reader messages (applied reader store act) := by
  cases act with
  | record policy request now =>
    exact h.record hdistinct policy request now fun hvalid =>
      hact _ (by simp [recorded, hvalid])
  | review conversationId turnId reviewer request now =>
    exact h.review hdistinct conversationId turnId reviewer request now
  | eraseConversation conversationId «by» now =>
    exact (h.eraseConversation hdistinct conversationId «by» now).1
  | eraseSubject subject «by» now => exact (h.eraseSubject hdistinct subject «by» now).1
  | sweep now clock => exact (h.sweep hdistinct now clock).1

theorem sound_last {acts : List Act} (hacts : ∀ message ∈ recorded acts, message ∈ messages)
    (h : Sound reader messages store) :
    Sound reader messages ((archive reader).last store acts) := by
  induction acts generalizing store with
  | nil => exact h
  | cons act acts ih =>
    have hrecorded : recorded (act :: acts) = recorded [act] ++ recorded acts := by
      rw [recorded, recorded, recorded, ← filterMap_append, singleton_append]
    rw [hrecorded] at hacts
    rw [Machine.last_cons_some rfl]
    exact ih (fun message hmem => hacts message (mem_append_right _ hmem))
      (h.step hdistinct act fun message hmem => hacts message (mem_append_left _ hmem))

end

/-- **The counts are the fold**: after every run of operations a head's numbers are those of its
conversation's stored turns, its earliest expiry is no later than that of any turn that still
holds content, and a sweep at any moment erases every turn that has run out. -/
theorem counts_fold (reader : Reader) (acts : List Act)
    (hdistinct : reader.Distinct (recorded acts)) :
    let store := (archive reader).last {} acts
    (∀ c,
      (store.head c = none → (store.conversation c).turns = ∅) ∧
      ∀ head, store.head c = some head →
        head.numbers = fold (store.conversation c).turns ∧
        (∀ (kind : String) count, head.findings[kind]? = some count → 0 < count) ∧
        ∀ turnId turn, store.turn c turnId = some turn → store.contents[turnId]?.isSome →
          ∀ expiry ∈ turn.expiresAt, ∃ bound ∈ head.earliestExpiry, bound ≤ expiry) ∧
    ∀ now clock, SweptClean now ((sweep now clock).run store).2 := by
  have h := sound_last hdistinct (fun _ hmem => hmem) (@sound_new reader (recorded acts))
  dsimp only
  generalize (archive reader).last {} acts = store at h ⊢
  refine ⟨fun c => ⟨(h.settled c).turns_eq_empty, fun head hhead => ?_⟩,
    fun now clock => (h.sweep hdistinct now clock).2.2⟩
  have hcounted := (h.settled c).counted head hhead
  exact ⟨hcounted.numbers, hcounted.found, fun turnId turn hturn hcontent =>
    (h.settled c).expiry head hhead turnId turn hturn ((h.sealed c turnId turn hturn).mp hcontent)⟩

/-- A scanner that finds nothing, and ids that are what they are derived from. -/
def plainReader : Reader where
  scan _ := []
  digest content := String.join (content.parts.map fun
    | .text words => words
    | _ => "")
  turnId conversationId messageId :=
    String.ofList (List.replicate (62 - byteLength conversationId - byteLength messageId) '0') ++
      conversationId ++ "0" ++ messageId ++ "0"

/-- What a producer says of a message, on the consent of a person. -/
def saying (conversationId messageId words : String) : RecordTurnRequest where
  conversationId
  messageId
  role := .user
  content := { parts := [.text words] }
  policy := {
    consent := { subject := "ada", basis := .consent, reference := "form", scope := [.train] }
    redaction := some { redactor := "hook" } }

def twoTalks : List Act :=
  [.record {} (saying "a" "b" "hello") 0, .record {} (saying "c" "d" "hello") 1,
    .review "a" (plainReader.turnId "a" "b") "eve" { state := .approved } 2,
    .record {} (saying "a" "b" "bye") 3, .sweep 2592000000000000 2592000000000000]

theorem counts_fold_twoTalks :
    let store := (archive plainReader).last {} twoTalks
    (∀ c,
      (store.head c = none → (store.conversation c).turns = ∅) ∧
      ∀ head, store.head c = some head →
        head.numbers = fold (store.conversation c).turns ∧
        (∀ (kind : String) count, head.findings[kind]? = some count → 0 < count) ∧
        ∀ turnId turn, store.turn c turnId = some turn → store.contents[turnId]?.isSome →
          ∀ expiry ∈ turn.expiresAt, ∃ bound ∈ head.earliestExpiry, bound ≤ expiry) ∧
    ∀ now clock, SweptClean now ((sweep now clock).run store).2 :=
  counts_fold plainReader twoTalks (by decide +kernel)

end Aiwatcher.Conversations
