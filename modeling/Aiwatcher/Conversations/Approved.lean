import Aiwatcher.Conversations.Resent

/-!
# Aiwatcher.Conversations.Approved

An approval is of the words it was given for.  Whatever an operation makes of the archive, a
turn that is approved after it was so before, with the same review and the same digest, or has
just been approved by a reviewer (`Approves`); so from the review that gave it on, an approval
and its digest stand together through every run.

Erasing a turn leaves its review as it was: what reads approvals asks too that the turn is
readable, and a turn that is recorded again after its erasure is pending.
-/

namespace Aiwatcher.Conversations

open Library Prog

variable {reader : Reader} {store : Store} {c turnId : String}
  {S : String → String → TurnReview → String → Prop}

/-! ## What every access keeps -/

/-- Turns are stored under their own ids, and every approval is one of some. -/
def Approvals (S : String → String → TurnReview → String → Prop) (store : Store) : Prop :=
  ∀ c turnId turn, store.turn c turnId = some turn →
    turn.conversationId = c ∧ turn.turnId = turnId ∧
      (turn.review.state = .approved → S c turnId turn.review turn.contentDigest)

/-- What a turn may be put with. -/
def Fits (S : String → String → TurnReview → String → Prop) (turn : ArchivedTurn) : Prop :=
  turn.review.state = .approved →
    S turn.conversationId turn.turnId turn.review turn.contentDigest

theorem Approvals.fits (h : Approvals S store) {turn : ArchivedTurn}
    (hturn : store.turn c turnId = some turn) : Fits S turn := by
  obtain ⟨rfl, rfl, happroved⟩ := h c turnId turn hturn
  exact happroved

theorem Approvals.congr (h : Approvals S store) {store' : Store}
    (hturns : ∀ c turnId, store'.turn c turnId = store.turn c turnId) : Approvals S store' := by
  intro c turnId turn hturn
  rw [hturns] at hturn
  exact h c turnId turn hturn

theorem turn_putTurn (turn : ArchivedTurn) (c turnId : String) :
    (store.putTurn turn).turn c turnId =
      if turn.conversationId = c ∧ turn.turnId = turnId then some turn
      else store.turn c turnId := by
  simp only [Store.turn, Store.conversation_putTurn]
  by_cases hc : turn.conversationId = c
  · simp only [hc, if_true, true_and, Table.getElem?_insert]
  · simp only [hc, if_false, false_and]

theorem turn_putHead (head : ConversationHead) (c turnId : String) :
    (store.putHead head).turn c turnId = store.turn c turnId := by
  simp only [Store.turn, Store.conversation_putHead]
  split <;> rfl

theorem turn_recount (c : String) (previous next : ArchivedTurn) (c' turnId : String) :
    ((recount c previous next).run store).2.turn c' turnId = store.turn c' turnId := by
  simp only [recount, run_bind, run_read]
  split
  · rfl
  · exact turn_putHead _ c' turnId

theorem Approvals.putTurn {turn : ArchivedTurn} (hturn : Fits S turn) (s : Store)
    (h : Approvals S s) : Approvals S (s.putTurn turn) := by
  intro c turnId other hother
  rw [turn_putTurn] at hother
  split at hother
  · rename_i hsame
    obtain ⟨rfl, rfl⟩ := hsame
    cases hother
    exact ⟨rfl, rfl, hturn⟩
  · exact h c turnId other hother

theorem Approvals.putHead (head : ConversationHead) (s : Store) (h : Approvals S s) :
    Approvals S (s.putHead head) :=
  h.congr (turn_putHead head)

theorem Approvals.putIndex (c : String) (shard : Nat) (entries : List String) (s : Store)
    (h : Approvals S s) : Approvals S (s.putIndex c shard entries) := by
  refine h.congr fun c' turnId => ?_
  simp only [Store.turn, Store.putIndex, Store.conversation_putConversation]
  split
  · subst_vars
    rfl
  · rfl

theorem keeps_read_bind {σ α β : Type} {P : σ → Prop} {look : σ → α} {f : α → Prog σ β}
    (h : ∀ s, P s → (f (look s)).Keeps P) : (read look >>= f).Keeps P :=
  fun s hs => ⟨hs, h s hs⟩

theorem keeps_recount (c : String) (previous next : ArchivedTurn) :
    (recount c previous next).Keeps (Approvals S) := by
  refine (keeps_read _).bind fun held => ?_
  cases held with
  | none => exact keeps_pure _
  | some head => exact keeps_write (Approvals.putHead _)

theorem keeps_writeTurn {turn : ArchivedTurn} (hturn : Fits S turn)
    (previous : Option ArchivedTurn) : (writeTurn turn previous).Keeps (Approvals S) := by
  have hlist : ∀ head, (listTurn head turn).Keeps (Approvals S) := by
    intro head
    have hlisted : ∀ shard, Fits S { turn with indexShard := some shard } := fun _ => hturn
    unfold listTurn
    split
    · exact keeps_pure _
    · refine (keeps_read _).bind fun current => ?_
      refine (keeps_write (Approvals.putIndex _ _ _)).bind fun _ => ?_
      exact (keeps_write (Approvals.putTurn (hlisted _))).bind fun _ => keeps_pure _
  refine (keeps_write (Approvals.putTurn hturn)).bind fun _ => ?_
  have hrest : ∀ u : Unit, (do
      let held ← read fun store => store.head turn.conversationId
      let head := held.getD (.opening turn.conversationId turn.receivedAt)
      let listed ← listTurn head turn
      let head := listed.1.applyCounts previous (some listed.2)
      write (.putHead { head with
        lastSeen := max head.lastSeen listed.2.receivedAt
        earliestExpiry := earlier head.earliestExpiry listed.2.expiresAt })
      pure listed.2 : Prog Store ArchivedTurn).Keeps (Approvals S) := fun _ =>
    (keeps_read _).bind fun held => (hlist _).bind fun listed =>
      (keeps_write (Approvals.putHead _)).bind fun _ => keeps_pure _
  dsimp only
  split
  · exact (keeps_write fun s hs => hs.congr fun _ _ => rfl).bind hrest
  · exact hrest ()

theorem keeps_record (policy : ArchivePolicy) (request : RecordTurnRequest)
    (now : OffsetDateTime) : (record reader policy request now).Keeps (Approvals S) := by
  unfold record
  split
  · exact keeps_pure _
  · refine keeps_read_bind fun s hs => (keeps_read _).bind fun marker => ?_
    refine (keeps_write fun t ht => ht.congr fun _ _ => rfl).bind fun _ => ?_
    refine (keeps_writeTurn (fun happroved => ?_) _).bind fun turn =>
      (keeps_write fun t ht => ht.congr fun _ _ => rfl).bind fun _ => keeps_pure _
    simp only [archivedTurn] at happroved ⊢
    cases hexisting : s.turn request.conversationId
        (reader.turnId request.conversationId request.messageId) with
    | none => simp [reviewOf, hexisting] at happroved
    | some existing =>
      simp only [reviewOf, hexisting] at happroved ⊢
      split at happroved
      · rename_i hsame
        rw [if_pos hsame, ← hsame.1]
        exact (hs _ _ existing hexisting).2.2 happroved
      · cases happroved

theorem keeps_eraseTurn (c turnId : String) (reason : ErasureReason) («by» : String)
    (now : OffsetDateTime) : (eraseTurn c turnId reason «by» now).Keeps (Approvals S) := by
  refine keeps_read_bind fun s hs => ?_
  cases hprevious : s.turn c turnId with
  | none => exact keeps_pure _
  | some previous =>
    have hfits : Fits S previous := hs.fits hprevious
    dsimp only
    split
    · exact keeps_pure _
    · refine (keeps_write fun t ht => ht.congr fun _ _ => rfl).bind fun _ =>
        (keeps_write fun t ht => ht.congr fun _ _ => rfl).bind fun _ =>
          (keeps_write (Approvals.putTurn ?_)).bind fun _ =>
            (keeps_recount c previous _).bind fun _ => keeps_pure _
      exact hfits

theorem keeps_forListed {α : Type} {P : Store → Prop} {f : α → String → Prog Store α}
    (h : ∀ a turnId, (f a turnId).Keeps P) (c : String) (shards : Nat) (a : α) :
    (forListed c shards a f).Keeps P :=
  keeps_foldlM (fun a _ => (keeps_read _).bind fun entries => keeps_foldlM h entries a) _ a

theorem keeps_refreshExpiry (c : String) : (refreshExpiry c).Keeps (Approvals S) := by
  refine (keeps_read _).bind fun held => ?_
  cases held with
  | none => exact keeps_pure _
  | some head =>
    refine (keeps_forListed (fun a turnId => ?_) _ _ _).bind fun earliest =>
      keeps_write (Approvals.putHead _)
    refine (keeps_read _).bind fun turn => ?_
    cases turn <;> exact keeps_pure _

theorem keeps_withdrawn (conversations : List String) («by» : String) (now : OffsetDateTime) :
    (withdrawFor conversations «by» now).Keeps (Approvals S) :=
  keeps_withdrawFor (fun _ _ _ hs => hs.congr fun _ _ => rfl)
    (fun _ _ hs => hs.congr fun _ _ => rfl) (fun _ _ hs => hs.congr fun _ _ => rfl) _ _ _

theorem keeps_eraseConversation (c «by» : String) (now : OffsetDateTime) :
    (eraseConversation c «by» now).Keeps (Approvals S) := by
  unfold eraseConversation
  split
  · exact keeps_pure _
  · refine (keeps_read _).bind fun held => ?_
    cases held with
    | none => exact keeps_pure _
    | some head =>
      refine (keeps_forListed (fun report turnId => ?_) _ _ _).bind fun report =>
        (keeps_refreshExpiry c).bind fun _ => (keeps_withdrawn _ _ _).bind fun _ =>
          keeps_pure _
      rw [map_eq_pure_bind]
      exact (keeps_eraseTurn _ _ _ _ _).bind fun _ => keeps_pure _

theorem keeps_eraseSubject (subject «by» : String) (now : OffsetDateTime) :
    (eraseSubject subject «by» now).Keeps (Approvals S) := by
  unfold eraseSubject
  split
  · exact keeps_pure _
  · refine (keeps_read _).bind fun entries => (keeps_foldlM (fun done entry => ?_) _ _).bind
      fun done => (keeps_forM keeps_refreshExpiry _).bind fun _ =>
        (keeps_withdrawn _ _ _).bind fun _ => keeps_pure _
    refine (keeps_read _).bind fun marker => ?_
    cases marker with
    | none => exact keeps_pure _
    | some marker => exact (keeps_eraseTurn _ _ _ _ _).bind fun _ => keeps_pure _

theorem keeps_sweep (now clock : OffsetDateTime) :
    (sweep now clock).Keeps (Approvals S) := by
  unfold sweep conversations
  refine ((keeps_read _).bind fun entries => (keeps_mapM (fun c => keeps_read _) _).bind
    fun heads => keeps_pure _).bind fun heads =>
      (keeps_foldlM (fun swept head => ?_) _ _).bind fun swept =>
        (keeps_withdrawn _ _ _).bind fun _ => keeps_pure _
  unfold sweepConversation
  split
  · exact keeps_pure _
  · refine (keeps_forListed (fun done turnId => ?_) _ _ _).bind fun done =>
      (keeps_refreshExpiry _).bind fun _ => keeps_pure _
    refine (keeps_read _).bind fun turn => ?_
    cases turn with
    | none => exact keeps_pure _
    | some turn =>
      dsimp only
      split
      · exact keeps_pure _
      · exact (keeps_eraseTurn _ _ _ _ _).bind fun _ => keeps_pure _

/-! ## Every run -/

/-- An operation approves a turn with this review, its words being of this digest. -/
def Approves (store : Store) (act : Act) (c turnId : String) (review : TurnReview)
    (digest : String) : Prop :=
  ∃ reviewer request now turn, act = .review c turnId reviewer request now ∧
    request.state = .approved ∧ store.turn c turnId = some turn ∧
    turn.contentDigest = digest ∧
    review = { state := request.state, reviewer, note := request.note, decidedAt := some now
               preference := request.preference }

/-- A stored turn has this review and this digest. -/
def Stands (store : Store) (c turnId : String) (review : TurnReview) (digest : String) : Prop :=
  ∃ turn, store.turn c turnId = some turn ∧ turn.review = review ∧ turn.contentDigest = digest

theorem Approvals.applied (h : Approvals S store) (act : Act)
    (hnew : ∀ c turnId review digest, Approves store act c turnId review digest →
      S c turnId review digest) : Approvals S (applied reader store act) := by
  cases act with
  | record policy request now => exact (keeps_record policy request now).run h
  | eraseConversation c «by» now => exact (keeps_eraseConversation c «by» now).run h
  | eraseSubject subject «by» now => exact (keeps_eraseSubject subject «by» now).run h
  | sweep now clock => exact (keeps_sweep now clock).run h
  | review c turnId reviewer request now =>
    unfold Conversations.applied Conversations.review
    dsimp only
    split
    · exact h
    · simp only [run_bind, run_read]
      cases hprevious : store.turn c turnId with
      | none => exact h
      | some previous =>
        simp only [run_bind, run_write, run_pure]
        refine (keeps_recount c previous _).run (h.putTurn (fun happroved => ?_) store)
        obtain ⟨rfl, rfl, -⟩ := h c turnId previous hprevious
        exact hnew _ _ _ _ ⟨reviewer, request, now, previous, rfl, happroved, hprevious, rfl, rfl⟩

/-- **Step lemma**: an approval that stands stood before, or has just been given. -/
theorem stands_applied {T : String → String → TurnReview → String → Prop}
    (h : Approvals T store) (act : Act) {review : TurnReview} {digest : String}
    (happroved : review.state = .approved)
    (hstands : Stands (applied reader store act) c turnId review digest) :
    Stands store c turnId review digest ∨ Approves store act c turnId review digest := by
  have hold : Approvals (fun c turnId review digest => Stands store c turnId review digest ∨
      Approves store act c turnId review digest) store := fun c turnId turn hturn =>
    ⟨(h c turnId turn hturn).1, (h c turnId turn hturn).2.1, fun _ =>
      .inl ⟨turn, hturn, rfl, rfl⟩⟩
  obtain ⟨turn, hturn, rfl, rfl⟩ := hstands
  have hnew := @Approvals.applied reader _ _ hold act fun _ _ _ _ hgiven => .inr hgiven
  exact (hnew c turnId turn hturn).2.2 happroved

theorem approvals_last (acts : List Act) :
    Approvals (fun _ _ _ _ => True) ((archive reader).last {} acts) := by
  have hstart : Approvals (fun _ _ _ _ => True) ({} : Store) := by
    simp [Approvals, Store.turn, Store.conversation]
  generalize ({} : Store) = store at hstart ⊢
  induction acts generalizing store with
  | nil => exact hstart
  | cons act acts ih =>
    rw [Machine.last_cons_some rfl]
    exact ih _ (hstart.applied act fun _ _ _ _ _ => trivial)

/-- **Run lemma**: the review that gave an approval is in the run, and from it on the approval
and the digest stood together. -/
theorem stands_since {acts : List Act} {review : TurnReview} {digest : String}
    (happroved : review.state = .approved)
    (hstands : Stands ((archive reader).last {} acts) c turnId review digest) :
    ∃ before act after, acts = before ++ act :: after ∧
      Approves ((archive reader).last {} before) act c turnId review digest ∧
      ∀ n ≤ after.length,
        Stands ((archive reader).last {} (before ++ act :: after.take n)) c turnId review
          digest := by
  induction acts using List.reverseRecOn with
  | nil => simp [Stands, Machine.last, Store.turn, Store.conversation] at hstands
  | append_singleton acts act ih =>
    have hlast : (archive reader).last {} (acts ++ [act]) =
        applied reader ((archive reader).last {} acts) act := by
      rw [Machine.last_append, Machine.last_cons_some rfl]
      rfl
    have hnow := hstands
    rw [hlast] at hstands
    rcases stands_applied (approvals_last acts) act happroved hstands with hstood | hgiven
    · obtain ⟨before, given, after, rfl, hgiven, hsince⟩ := ih hstood
      refine ⟨before, given, after ++ [act], by simp, hgiven, fun n hn => ?_⟩
      rcases Nat.lt_or_eq_of_le hn with hlt | rfl
      · rw [List.length_append, List.length_singleton] at hlt
        rw [List.take_append_of_le_length (by omega)]
        exact hsince n (by omega)
      · rw [List.take_length]
        simpa using hnow
    · refine ⟨acts, act, [], rfl, hgiven, fun n _ => ?_⟩
      simpa using hnow

/-! ## Erasures -/

theorem turn_eraseTurn (h : Approvals S store) {turn : ArchivedTurn}
    (hturn : store.turn c turnId = some turn) (reason : ErasureReason) («by» : String)
    (now : OffsetDateTime) :
    ∃ erased, ((eraseTurn c turnId reason «by» now).run store).2.turn c turnId = some erased ∧
      erased.state = .erased ∧ erased.review = turn.review := by
  obtain ⟨rfl, rfl, -⟩ := h c turnId turn hturn
  unfold eraseTurn
  simp only [run_bind, run_read, hturn]
  split
  · rename_i herased
    exact ⟨turn, hturn, herased, rfl⟩
  · simp only [run_bind, run_write, run_pure, turn_recount, turn_putTurn, and_self, if_true]
    exact ⟨_, rfl, rfl, rfl⟩

theorem turn_writeTurn (turn : ArchivedTurn) (previous : Option ArchivedTurn) (store : Store) :
    ∃ shard, ((writeTurn turn previous).run store).2.turn turn.conversationId turn.turnId =
      some { turn with indexShard := shard } := by
  obtain ⟨store₁, hconversation, -, -, hrun⟩ := run_writeTurn store turn previous
  have hput : store₁.turn turn.conversationId turn.turnId = some turn := by
    rw [Store.turn, hconversation, ← Store.turn, turn_putTurn, if_pos ⟨rfl, rfl⟩]
  rw [hrun]
  dsimp only
  rw [turn_putHead]
  unfold listTurn
  split
  · exact ⟨turn.indexShard, by rw [run_pure, hput]⟩
  · simp only [run_bind, run_read, run_write, run_pure]
    exact ⟨_, by rw [turn_putTurn, if_pos ⟨rfl, rfl⟩]⟩

theorem turn_record_erased {policy : ArchivePolicy} {request : RecordTurnRequest}
    {now : OffsetDateTime} {turn : ArchivedTurn}
    (htaken : admitTurn reader policy request = .ok ())
    (hturn : store.turn request.conversationId
      (reader.turnId request.conversationId request.messageId) = some turn)
    (herased : turn.state = .erased) :
    ∃ recorded, ((record reader policy request now).run store).2.turn request.conversationId
        (reader.turnId request.conversationId request.messageId) = some recorded ∧
      recorded.state = .held ∧ recorded.review = {} := by
  obtain ⟨rest, -, -, hrecord⟩ := @record_parts reader policy request request.conversationId now
    store htaken
  rw [Store.turn, hrecord, ← Store.turn]
  obtain ⟨shard, hwritten⟩ := turn_writeTurn (firstRecord reader store policy request now)
    (some turn) (store.putContent (reader.turnId request.conversationId request.messageId)
      request.content)
  rw [hturn]
  refine ⟨_, hwritten, rfl, ?_⟩
  simp [firstRecord, archivedTurn, reviewOf, hturn, ArchivedTurn.isReadable, herased]

/-- **An approval is of its words**: after every run of operations a turn that is approved has
the digest it had when a review of the run approved it, and has had both since; an erasure
leaves a turn's review as it was, and what is recorded over an erased turn is pending. -/
theorem approval_of_its_words (reader : Reader) (acts : List Act) :
    let store := (archive reader).last {} acts
    (∀ c turnId turn, store.turn c turnId = some turn → turn.review.state = .approved →
      ∃ before act after, acts = before ++ act :: after ∧
        Approves ((archive reader).last {} before) act c turnId turn.review turn.contentDigest ∧
        ∀ n ≤ after.length, Stands ((archive reader).last {} (before ++ act :: after.take n))
          c turnId turn.review turn.contentDigest) ∧
    (∀ c turnId turn, store.turn c turnId = some turn → ∀ reason «by» now, ∃ erased,
      ((eraseTurn c turnId reason «by» now).run store).2.turn c turnId = some erased ∧
        erased.state = .erased ∧ erased.review = turn.review) ∧
    ∀ policy request now turn, admitTurn reader policy request = .ok () →
      store.turn request.conversationId
        (reader.turnId request.conversationId request.messageId) = some turn →
      turn.state = .erased → ∃ recorded,
        (applied reader store (.record policy request now)).turn request.conversationId
          (reader.turnId request.conversationId request.messageId) = some recorded ∧
        recorded.state = .held ∧ recorded.review = {} := by
  refine ⟨fun c turnId turn hturn happroved => ?_, fun c turnId turn hturn reason «by» now => ?_,
    fun policy request now turn htaken hturn herased => ?_⟩
  · exact stands_since happroved ⟨turn, hturn, rfl, rfl⟩
  · exact turn_eraseTurn (approvals_last acts) hturn reason «by» now
  · exact turn_record_erased htaken hturn herased

/-- A turn is recorded, approved and erased with its conversation. -/
def approvedThenErased : List Act :=
  [.record {} (saying "a" "b" "hello") 0,
    .review "a" (plainReader.turnId "a" "b") "eve" { state := .approved } 1,
    .eraseConversation "a" "ada" 2]

/-- The erased turn is still approved. -/
theorem erased_turn_approved : ∃ turn,
    ((archive plainReader).last {} approvedThenErased).turn "a" (plainReader.turnId "a" "b") =
      some turn ∧ turn.state = .erased ∧ turn.review.state = .approved := by
  have hstates : (((archive plainReader).last {} approvedThenErased).turn "a"
      (plainReader.turnId "a" "b")).map (fun turn => (turn.state, turn.review.state)) =
        some (.erased, .approved) := by decide +kernel
  obtain ⟨turn, hturn, hstate⟩ := Option.map_eq_some_iff.mp hstates
  rw [Prod.mk.injEq] at hstate
  exact ⟨turn, hturn, hstate⟩

end Aiwatcher.Conversations
