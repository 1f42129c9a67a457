import Aiwatcher.Agentic.Simulated
import Aiwatcher.Library.Machine

/-!
# Aiwatcher.Agentic.Agreed

What both event stores do with an append, and the run theorem (`stores_agree`).  They part where a
batch is empty, where a message without an event id repeats a key, where a prefix holds one of
`LIKE`'s signs or letters in another case, and where a position or a count is below zero.
-/

namespace Aiwatcher.Agentic

open Library List

variable {serialization : Serialization} {upcast : Message → Message}

/-! ## Duplicates -/

/-- What holds of each message of a batch and one before it, stored or in the batch. -/
def Among (stored recorded : List Message) (r : Message → Message → Prop) : Prop :=
  (∀ event ∈ recorded, ∀ old ∈ stored, r old event) ∧ recorded.Pairwise r

theorem among_filterMap {α : Type} (f : Message → Option α) (r : α → α → Prop)
    (stored recorded : List Message) :
    ((∀ x ∈ recorded.filterMap f, ∀ y ∈ stored.filterMap f, r y x) ∧
        (recorded.filterMap f).Pairwise r) ↔
      Among stored recorded fun old event => ∀ y ∈ f old, ∀ x ∈ f event, r y x := by
  rw [Among, pairwise_filterMap]
  refine and_congr_left fun _ =>
    ⟨fun h event hevent old hold y hy x hx => ?_, fun h x hx y hy => ?_⟩
  · exact h x (mem_filterMap.2 ⟨event, hevent, hx⟩) y (mem_filterMap.2 ⟨old, hold, hy⟩)
  · obtain ⟨event, hevent, hx⟩ := mem_filterMap.1 hx
    obtain ⟨old, hold, hy⟩ := mem_filterMap.1 hy
    exact h event hevent old hold y hy x hx

theorem Among.and {stored recorded : List Message} {r r' : Message → Message → Prop} :
    Among stored recorded (fun old event => r old event ∧ r' old event) ↔
      Among stored recorded r ∧ Among stored recorded r' := by
  simp only [Among, pairwise_and_iff]
  grind

theorem Among.congr {stored recorded : List Message} {r r' : Message → Message → Prop}
    (h : ∀ old ∈ stored ++ recorded, ∀ event ∈ recorded, r old event ↔ r' old event) :
    Among stored recorded r ↔ Among stored recorded r' := by
  refine and_congr ?_ (List.Pairwise.iff_of_mem fun hold hevent =>
    h _ (mem_append_right _ hold) _ hevent)
  exact forall₂_congr fun event hevent => forall₂_congr fun old hold =>
    h old (mem_append_left _ hold) event hevent

/-- Neither the key nor the event id is repeated. -/
def Distinct (old event : Message) : Prop :=
  (∀ y ∈ keyOf old, ∀ x ∈ keyOf event, y ≠ x) ∧
    ∀ y ∈ eventIdOf old, ∀ x ∈ eventIdOf event, y ≠ x

/-- The table of keys takes the second behind the first. -/
def Unclashing (old event : Message) : Prop :=
  ∀ y ∈ keyRowOf old, ∀ x ∈ keyRowOf event, x.clashes y = false

/-- The key is not repeated, if only one of both has an event id. -/
def Keyed (old event : Message) : Prop :=
  old.metadata.eventId = "" ∨ event.metadata.eventId = "" →
    ∀ y ∈ keyOf old, ∀ x ∈ keyOf event, y ≠ x

/-- A message with an event id has a key. -/
def Identified (event : Message) : Prop :=
  event.metadata.eventId ≠ "" → event.metadata.idempotencyKey ≠ ""

theorem distinct_iff {old event : Message} (hold : Identified old) (hevent : Identified event) :
    Distinct old event ↔ Unclashing old event ∧ Keyed old event := by
  simp only [Distinct, Unclashing, Keyed, Identified, keyOf, eventIdOf, keyRowOf] at hold hevent ⊢
  by_cases hold' : old.metadata.eventId = "" <;> by_cases hevent' : event.metadata.eventId = "" <;>
    by_cases hkey : old.metadata.idempotencyKey = "" <;>
    by_cases hkey' : event.metadata.idempotencyKey = "" <;>
    simp [hold', hevent', hkey, hkey', KeyRow.clashes] at hold hevent ⊢
  grind

theorem insertKeys_iff {rows keys keys' : List KeyRow} :
    insertKeys rows keys = some keys' ↔
      ((∀ row ∈ rows, ∀ key ∈ keys, row.clashes key = false) ∧
        rows.Pairwise fun one other => other.clashes one = false) ∧ keys' = keys ++ rows := by
  induction rows generalizing keys with
  | nil => simpa [insertKeys] using eq_comm
  | cons row rows ih =>
    rw [insertKeys]
    split
    · rename_i hany
      simp only [any_eq_true] at hany
      grind
    · rename_i hany
      rw [ih]
      simp only [any_eq_true, not_exists, not_and, Bool.not_eq_true] at hany
      simp only [mem_append, mem_singleton, pairwise_cons, forall_mem_cons,
        append_assoc, singleton_append]
      grind

/-! ## Appends -/

section

variable {name : String} {fresh : Nat → Fresh} {now : Int} {current total : Nat}
  {events : List Message}

theorem range_append_range' (m n : Nat) : List.range m ++ List.range' m n = List.range (m + n) := by
  have h := @List.range'_append 0 m n 1
  rw [range_eq_range', range_eq_range', ← h]
  simp

theorem recordedFrom_cons (event : Message) :
    recordedFrom name fresh now current total (event :: events) =
      normalizeRecordedMessage (fresh 0) (some ⟨name, current, total, now⟩) event ::
        recordedFrom name (fun index => fresh (index + 1)) now (current + 1) (total + 1)
          events := by
  simp only [recordedFrom, mapIdx_cons, Nat.add_zero, Nat.add_right_comm _ 1, Nat.add_assoc]

theorem length_recordedFrom :
    (recordedFrom name fresh now current total events).length = events.length :=
  length_mapIdx

theorem places_recordedFrom :
    (recordedFrom name fresh now current total events).map positionOf =
        List.range' total events.length ∧
      (recordedFrom name fresh now current total events).map streamPositionOf =
        List.range' current events.length ∧
      ∀ event ∈ recordedFrom name fresh now current total events,
        event.metadata.streamName = name := by
  induction events generalizing fresh current total with
  | nil => simp [recordedFrom]
  | cons event events ih =>
    obtain ⟨hpositions, hstream, hnames⟩ := @ih (fun index => fresh (index + 1)) (current + 1)
      (total + 1)
    rw [recordedFrom_cons, map_cons, map_cons, hpositions, hstream, forall_mem_cons]
    exact ⟨rfl, rfl, rfl, hnames⟩

/-- The message is written, and reads back as itself. -/
def WritesBack (serialization : Serialization) (event : Message) : Prop :=
  ∃ payload ∈ serialization.serialize event, serialization.deserialize payload = some event

theorem rows_recordedFrom
    (h : ∀ event ∈ recordedFrom name fresh now current total events,
      WritesBack serialization event) :
    ∃ payloads, (recordedFrom name fresh now current total events).mapM serialization.serialize =
        some payloads ∧
      List.Forall₂ (RowOf serialization)
        (payloads.mapIdx fun index payload =>
          ⟨total + index, name, current + index, now, payload⟩)
        (recordedFrom name fresh now current total events) := by
  induction events generalizing fresh current total with
  | nil => exact ⟨[], rfl, .nil⟩
  | cons event events ih =>
    rw [recordedFrom_cons] at h ⊢
    obtain ⟨⟨payload, hpayload, hreads⟩, hrest⟩ := forall_mem_cons.1 h
    obtain ⟨payloads, hpayloads, hrows⟩ := ih hrest
    refine ⟨payload :: payloads, ?_, ?_⟩
    · rw [mapM_cons, Option.mem_def.1 hpayload, hpayloads]
      rfl
    · rw [mapIdx_cons]
      refine .cons ⟨⟨_, _, rfl⟩, hreads⟩ ?_
      simpa only [Nat.add_right_comm _ 1, Nat.add_assoc] using hrows

end

section

variable {store : InMemoryEventStore} {table : SQLiteEventStore} {name : String}
  {events : List Message} {expected : ExpectedVersion} {fresh : Nat → Fresh} {now : Int}

/-- The messages of an append, as the store in memory records them. -/
def InMemoryEventStore.recorded (store : InMemoryEventStore) (name : String)
    (events : List Message) (fresh : Nat → Fresh) (now : Int) : List Message :=
  recordedFrom name fresh now ((store.streams[name]?).getD []).length store.allEvents.length events

theorem identified_rows {rows : List EventRow}
    (h : List.Forall₂ (RowOf serialization) rows events) : ∀ event ∈ events, Identified event := by
  induction h with
  | nil => simp
  | cons hrow _ ih =>
    obtain ⟨fresh, message, rfl⟩ := hrow.recorded
    rw [forall_mem_cons]
    exact ⟨idempotencyKey_ne_of_eventId _ _, ih⟩

section

variable (h : Alike serialization store table)

include h

theorem Alike.appended (hne : events ≠ []) {rows : List EventRow}
    (hrows : List.Forall₂ (RowOf serialization) rows (store.recorded name events fresh now)) :
    Alike serialization
      { streams := store.streams.insert name
          ((store.streams[name]?).getD [] ++ store.recorded name events fresh now)
        allEvents := store.allEvents ++ store.recorded name events fresh now
        idempotencyKeys :=
          store.idempotencyKeys ++ (store.recorded name events fresh now).filterMap keyOf
        eventIds := store.eventIds ++ (store.recorded name events fresh now).filterMap eventIdOf }
      { versions := table.versions.insert name (table.currentVersion name + events.length)
        rows := table.rows ++ rows
        keys := table.keys ++ (store.recorded name events fresh now).filterMap keyRowOf } := by
  obtain ⟨hpositions, hstream, hnames⟩ :=
    @places_recordedFrom name fresh now ((store.streams[name]?).getD []).length
      store.allEvents.length events
  have hlength := @length_recordedFrom name fresh now ((store.streams[name]?).getD []).length
    store.allEvents.length events
  have hrecorded : store.recorded name events fresh now ≠ [] := fun hnil =>
    hne (length_eq_zero_iff.1 (hlength ▸ length_eq_zero_iff.2 hnil))
  have hself : (store.recorded name events fresh now).filter (isOf name) =
      store.recorded name events fresh now :=
    filter_eq_self.2 fun event hevent => beq_iff_eq.2 (hnames event hevent)
  have hother : ∀ other, other ≠ name →
      (store.recorded name events fresh now).filter (isOf other) = [] := fun other hother =>
    filter_eq_nil_iff.2 fun event hevent hof =>
      hother ((beq_iff_eq.1 hof).symm.trans (hnames event hevent))
  constructor
  · exact rel_append h.rows hrows
  · rw [map_append, h.positions, length_append, InMemoryEventStore.recorded,
      hpositions, hlength, range_append_range']
  · intro other
    rw [filter_append, ← h.streams, Table.getElem?_insert]
    by_cases hname : name = other
    · subst hname
      rw [if_pos rfl, hself, Option.getD_some]
    · rw [if_neg hname, hother other (Ne.symm hname), append_nil]
  · intro other
    rw [Table.getElem?_insert]
    split
    · simp [hrecorded]
    · exact h.nonempty other
  · intro other
    rw [filter_append]
    by_cases hname : other = name
    · subst hname
      rw [hself, map_append, h.streamPositions, InMemoryEventStore.recorded, hstream,
        length_append, hlength, h.streams, range_append_range']
    · rw [hother other hname, append_nil]
      exact h.streamPositions other
  · intro other
    rw [filter_append, length_append, SQLiteEventStore.currentVersion, Table.getElem?_insert]
    by_cases hname : name = other
    · subst hname
      rw [if_pos rfl, hself, Option.getD_some, h.versions, InMemoryEventStore.recorded, hlength]
    · rw [if_neg hname, hother other (Ne.symm hname), ← h.versions]
      rfl
  · simp [h.idempotencyKeys]
  · simp [h.eventIds]
  · simp [h.keys]

theorem Alike.distinct_iff (recorded : List Message) :
    ((recorded.filterMap keyOf).Nodup ∧ (recorded.filterMap eventIdOf).Nodup ∧
        (∀ key ∈ recorded.filterMap keyOf, key ∉ store.idempotencyKeys) ∧
        ∀ eventId ∈ recorded.filterMap eventIdOf, eventId ∉ store.eventIds) ↔
      Among store.allEvents recorded Distinct := by
  have hkeys := among_filterMap keyOf (· ≠ ·) store.allEvents recorded
  have heventIds := among_filterMap eventIdOf (· ≠ ·) store.allEvents recorded
  have hand : Among store.allEvents recorded Distinct ↔ _ ∧ _ := Among.and
  rw [hand, ← hkeys, ← heventIds, h.idempotencyKeys, h.eventIds, List.Nodup, List.Nodup]
  grind

theorem Alike.insertKeys_iff {recorded : List Message} {keys : List KeyRow} :
    insertKeys (recorded.filterMap keyRowOf) table.keys = some keys ↔
      Among store.allEvents recorded Unclashing ∧
        keys = table.keys ++ recorded.filterMap keyRowOf := by
  rw [Agentic.insertKeys_iff, h.keys]
  exact and_congr_left fun _ =>
    among_filterMap keyRowOf (fun y x => x.clashes y = false) store.allEvents recorded

/-- Where an operation is answered alike. -/
def Meets (serialization : Serialization) (store : InMemoryEventStore) : Operation → Prop
  | .append name events expected fresh now =>
    let current := ((store.streams[name]?).getD []).length
    let recorded := store.recorded name events fresh now
    (events = [] → (store.streams[name]?).isSome = true ∧ expects current expected = true) ∧
      (events ≠ [] → expects current expected = true →
        (∀ event ∈ recorded, WritesBack serialization event) ∧
          (Among store.allEvents recorded Unclashing → Among store.allEvents recorded Keyed))
  | .readStream name fromPosition maxCount =>
    let events := (store.streams[name]?).getD []
    (fits fromPosition && maxCount.all fits) = true ∧
      (0 ≤ fromPosition ∨ events.length ≤ -fromPosition) ∧
      (maxCount.all (0 ≤ ·) ∨ sliceFrom events fromPosition = [])
  | .readAll fromPosition maxCount streamPrefix =>
    (fits fromPosition && maxCount.all fits) = true ∧ PlainPrefix store streamPrefix ∧
      (maxCount.all (0 ≤ ·) ∨ store.candidates fromPosition streamPrefix = [])
  | .streamExists _ => True

theorem Alike.append (hmeets : Meets serialization store (.append name events expected fresh now)) :
    (table.appendToStream serialization name events expected fresh now).1 =
        (store.appendToStream name events expected fresh now).1 ∧
      Alike serialization (store.appendToStream name events expected fresh now).2
        (table.appendToStream serialization name events expected fresh now).2 := by
  obtain ⟨hempty, hbatch⟩ := hmeets
  have hversion : table.currentVersion name = ((store.streams[name]?).getD []).length := by
    rw [h.versions, h.streams]
  by_cases hnil : events = []
  · obtain ⟨hsome, hexpects⟩ := hempty hnil
    subst hnil
    obtain ⟨stream, hstream⟩ := Option.isSome_iff_exists.1 hsome
    have hsame : store.streams.insert name stream = store.streams := by
      refine Std.ExtTreeMap.ext_getElem? fun other => ?_
      rw [Table.getElem?_insert]
      split
      · rename_i hname
        rw [← hname, hstream]
      · rfl
    rw [hstream] at hexpects hversion
    rw [InMemoryEventStore.appendToStream, SQLiteEventStore.appendToStream, hstream]
    simp only [Option.getD_some] at hexpects hversion ⊢
    simp [hexpects, hversion, recordedFrom, hsame, h]
  · have hisEmpty : events.isEmpty = false := by simpa using hnil
    rw [InMemoryEventStore.appendToStream, SQLiteEventStore.appendToStream]
    dsimp only
    have hrecorded : recordedFrom name fresh now ((store.streams[name]?).getD []).length
        store.allEvents.length events = store.recorded name events fresh now := rfl
    rw [hisEmpty, if_neg Bool.false_ne_true, hversion, h.nextGlobalPosition, hrecorded]
    split
    · rename_i hexpects
      obtain ⟨hwrites, hkeyed⟩ := hbatch hnil hexpects
      obtain ⟨payloads, hpayloads, hrows⟩ := rows_recordedFrom hwrites
      have hidentified := identified_rows hrows
      have hiff : Among store.allEvents (store.recorded name events fresh now) Distinct ↔
          Among store.allEvents (store.recorded name events fresh now) Unclashing := by
        have hcongr : Among store.allEvents (store.recorded name events fresh now) Distinct ↔
            Among store.allEvents (store.recorded name events fresh now) fun old event =>
              Unclashing old event ∧ Keyed old event :=
          Among.congr fun old hold event hevent =>
            Agentic.distinct_iff ((mem_append.1 hold).elim (identified_rows h.rows old)
              (hidentified old)) (hidentified event hevent)
        rw [hcongr, Among.and]
        exact and_iff_left_of_imp hkeyed
      rw [hrecorded] at hpayloads
      rw [hpayloads]
      dsimp only
      cases hkeys : insertKeys ((store.recorded name events fresh now).filterMap keyRowOf)
          table.keys with
      | none =>
        have hdup : ¬ Among store.allEvents (store.recorded name events fresh now) Distinct := by
          intro hdistinct
          have hsome := h.insertKeys_iff.2 ⟨hiff.1 hdistinct, rfl⟩
          cases hkeys.symm.trans hsome
        rw [if_neg fun hdistinct => hdup ((h.distinct_iff _).1 hdistinct)]
        exact ⟨rfl, h⟩
      | some keys =>
        obtain ⟨hunclashing, rfl⟩ := h.insertKeys_iff.1 hkeys
        rw [if_pos ((h.distinct_iff _).2 (hiff.2 hunclashing))]
        refine ⟨by rw [InMemoryEventStore.recorded, length_recordedFrom], ?_⟩
        have happended := h.appended hnil hrows
        rw [hversion] at happended
        exact happended
    · exact ⟨rfl, h⟩

end

theorem Alike.perform (h : Alike serialization store table) (upcast : Message → Message)
    (fresh : Fresh) {op : Operation}
    (hmeets : Meets serialization store op) :
    (table.perform serialization upcast fresh op).1 = (store.perform upcast op).1 ∧
      Alike serialization (store.perform upcast op).2
        (table.perform serialization upcast fresh op).2 := by
  cases op with
  | append name events expected fresh now => exact h.append hmeets
  | readStream name fromPosition maxCount =>
    exact ⟨h.readStream fresh hmeets.1 hmeets.2.1 hmeets.2.2, h⟩
  | readAll fromPosition maxCount streamPrefix =>
    exact ⟨h.readAll fresh hmeets.1 hmeets.2.1 hmeets.2.2, h⟩
  | streamExists name => exact ⟨congrArg Answer.exists_ (h.isSome_iff name).symm, h⟩

end

/-! ## Runs -/

/-- The store in memory.  The ids and the time beside an operation are for what is read back. -/
def inMemory (upcast : Message → Message) :
    Machine InMemoryEventStore (Fresh × Operation) Answer where
  step store input := some ([(store.perform upcast input.2).1], (store.perform upcast input.2).2)

def overSQLite (serialization : Serialization) (upcast : Message → Message) :
    Machine SQLiteEventStore (Fresh × Operation) Answer where
  step table input :=
    some ([(table.perform serialization upcast input.1 input.2).1],
      (table.perform serialization upcast input.1 input.2).2)

/-- **Both event stores** answer alike over any run of operations that meet the conditions. -/
theorem stores_agree (serialization : Serialization) (upcast : Message → Message)
    (operations : List (Fresh × Operation))
    (hmeets : ∀ st ∈ (inMemory upcast).run .new operations,
      Meets serialization st.before st.input.2) :
    (overSQLite serialization upcast).emitted .new operations =
      (inMemory upcast).emitted .new operations := by
  refine Machine.emitted_lockstep (Alike serialization)
    (fun store input => Meets serialization store input.2) ?_ ?_ alike_new hmeets
  · intro store table input halike hstep
    cases hstep
  · intro store table input out store' halike hadmits hstep
    obtain ⟨hanswer, halike'⟩ := halike.perform upcast input.1 hadmits
    cases hstep
    exact ⟨_, by rw [← hanswer]; rfl, halike'⟩

/-! ## One run -/

def placed : Message where
  type := "order.placed"
  bound := ""
  data := .null
  metadata :=
    { ids := none, runtimeId := "order-1", turnId := "", replyToMessageId := none,
      correlationId := "", causationId := none, idempotencyKey := "placed-1", contractName := "",
      occurredAtNs := 5, recordedAtNs := none, workflowAction := none, streamName := "",
      streamPosition := none, globalPosition := none }

def drawn : Fresh :=
  ⟨"message-1", "event-1", 7, of_decide_eq_true rfl, of_decide_eq_true rfl, of_decide_eq_true rfl⟩

def placedRow : Serialization where
  serialize _ := some
    "\x7b\"type\":\"order.placed\",\"data\":null,\"metadata\":\x7b\"turn_id\":\"order-1\"\x7d\x7d"
  deserialize _ := some (normalizeRecordedMessage drawn (some ⟨"orders", 0, 0, 9⟩) placed)

/-- An append, and each of the reads. -/
def onceEach : List (Fresh × Operation) :=
  [(drawn, .append "orders" [placed] .streamDoesNotExist (fun _ => drawn) 9),
    (drawn, .readStream "orders" 0 none), (drawn, .readAll 0 (some 1) (some "ord")),
    (drawn, .streamExists "orders")]

theorem stores_agree_onceEach :
    (overSQLite placedRow id).emitted .new onceEach = (inMemory id).emitted .new onceEach := by
  refine stores_agree placedRow id onceEach ?_
  simp only [onceEach, Machine.run, inMemory, List.forall_mem_cons]
  refine ⟨⟨?_, ?_⟩, ⟨?_, ?_, ?_⟩, ⟨?_, ?_, ?_⟩, trivial, ?_⟩
  · rintro ⟨⟩
  · refine fun _ _ => ⟨fun event hevent => ?_, fun _ => ⟨fun event _ old hold => ?_, ?_⟩⟩
    · obtain rfl := List.mem_singleton.1 hevent
      exact ⟨_, rfl, rfl⟩
    · cases hold
    · exact List.pairwise_singleton _ _
  · decide
  · exact .inl (by decide)
  · exact .inl rfl
  · decide
  · rintro front ⟨⟩ event hevent -
    obtain rfl := List.mem_singleton.1 hevent
    decide +kernel
  · exact .inl (by decide)
  · simp

/-- An append of nothing makes the stream in memory, and does not in the table. -/
theorem stores_differ :
    ¬ ((overSQLite placedRow id).emitted .new
        [(drawn, .append "orders" [] .noConcurrencyCheck (fun _ => drawn) 9),
          (drawn, .streamExists "orders")] =
      (inMemory id).emitted .new
        [(drawn, .append "orders" [] .noConcurrencyCheck (fun _ => drawn) 9),
          (drawn, .streamExists "orders")]) := by
  intro h
  have hanswers : [Answer.appended 0, .exists_ false] = [.appended 0, .exists_ true] := h
  cases hanswers

end Aiwatcher.Agentic
