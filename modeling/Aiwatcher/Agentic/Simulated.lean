import Aiwatcher.Agentic.Stores
import Aiwatcher.Library.Table
import Mathlib.Data.List.Forall2
import Mathlib.Data.List.Infix

/-!
# Aiwatcher.Agentic.Simulated

The two event stores hold the same (`Alike`), and then read the same.
-/

namespace Aiwatcher.Agentic

open Library List

variable {serialization : Serialization} {upcast : Message → Message}

/-! ## What the stores hold -/

/-- The row of a recorded message. -/
structure RowOf (serialization : Serialization) (row : EventRow) (event : Message) : Prop where
  recorded : ∃ fresh message, event = normalizeRecordedMessage fresh
    (some ⟨row.streamName, row.streamPosition, row.globalPosition, row.createdAtNs⟩) message
  reads : serialization.deserialize row.payload = some event

def isOf (streamName : String) (event : Message) : Bool := event.metadata.streamName == streamName

def streamPositionOf (event : Message) : Nat := event.metadata.streamPosition.getD 0

/-- Both stores hold the same messages, none in an empty stream. -/
structure Alike (serialization : Serialization) (store : InMemoryEventStore)
    (table : SQLiteEventStore) : Prop where
  rows : List.Forall₂ (RowOf serialization) table.rows store.allEvents
  positions : store.allEvents.map positionOf = List.range store.allEvents.length
  streams : ∀ name : String, (store.streams[name]?).getD [] = store.allEvents.filter (isOf name)
  nonempty : ∀ name : String, store.streams[name]? ≠ some []
  streamPositions : ∀ name : String, (store.allEvents.filter (isOf name)).map streamPositionOf =
    List.range (store.allEvents.filter (isOf name)).length
  versions : ∀ name : String,
    table.currentVersion name = (store.allEvents.filter (isOf name)).length
  idempotencyKeys : store.idempotencyKeys = store.allEvents.filterMap keyOf
  eventIds : store.eventIds = store.allEvents.filterMap eventIdOf
  keys : table.keys = store.allEvents.filterMap keyRowOf

theorem alike_new : Alike serialization .new .new where
  rows := .nil
  positions := rfl
  streams name := by simp [InMemoryEventStore.new]
  nonempty name := by simp [InMemoryEventStore.new]
  streamPositions name := rfl
  versions name := by simp [SQLiteEventStore.new, InMemoryEventStore.new,
    SQLiteEventStore.currentVersion]
  idempotencyKeys := rfl
  eventIds := rfl
  keys := rfl

section

variable {row : EventRow} {event : Message}

theorem RowOf.place (h : RowOf serialization row event) :
    positionOf event = row.globalPosition ∧ streamPositionOf event = row.streamPosition ∧
      event.metadata.streamName = row.streamName := by
  obtain ⟨fresh, message, rfl⟩ := h.recorded
  exact ⟨rfl, rfl, rfl⟩

theorem RowOf.bindPositions (h : RowOf serialization row event) (fresh : Fresh) :
    SQLiteEventStore.bindPositions serialization fresh row = some event := by
  obtain ⟨fresh', message, hevent⟩ := h.recorded
  rw [SQLiteEventStore.bindPositions, h.reads]
  rw [Option.map_some, hevent, normalizeRecordedMessage_again]

end

variable {events : List Message} {rows : List EventRow}

theorem bindPositions_rows (h : List.Forall₂ (RowOf serialization) rows events) (fresh : Fresh) :
    rows.mapM (SQLiteEventStore.bindPositions serialization fresh) = some events := by
  induction h with
  | nil => rfl
  | cons hrow _ ih => simp [mapM_cons, hrow.bindPositions fresh, ih]

theorem filter_rows (h : List.Forall₂ (RowOf serialization) rows events) {p : EventRow → Bool}
    {q : Message → Bool}
    (hpq : ∀ row ∈ rows, ∀ event ∈ events, RowOf serialization row event → p row = q event) :
    List.Forall₂ (RowOf serialization) (rows.filter p) (events.filter q) := by
  induction h with
  | nil => exact .nil
  | @cons row event rows events hrow hrows ih =>
    have hsame := hpq row mem_cons_self event mem_cons_self hrow
    have hrest := ih fun row hmem event hmem' =>
      hpq row (mem_cons_of_mem _ hmem) event (mem_cons_of_mem _ hmem')
    rw [filter_cons, filter_cons, hsame]
    split
    · exact .cons hrow hrest
    · exact hrest

/-! ## Pages -/

theorem filter_eq_drop {key : Message → Nat} {first : Nat}
    (h : events.map key = List.range' first events.length) (fromPosition : Int) :
    events.filter (fun event => decide (fromPosition ≤ key event)) =
      events.drop (fromPosition - first).toNat := by
  induction events generalizing first with
  | nil => simp
  | cons event events ih =>
    rw [map_cons, length_cons, range'_succ, List.cons.injEq] at h
    rw [filter_cons, ih h.2]
    split
    · rename_i hle
      rw [h.1] at hle
      have hzero : (fromPosition - first).toNat = 0 := by
        simp only [decide_eq_true_eq] at hle
        omega
      have hzero' : (fromPosition - (first + 1 : Nat)).toNat = 0 := by omega
      rw [hzero, hzero', drop_zero, drop_zero]
    · rename_i hlt
      rw [h.1] at hlt
      have hsucc : (fromPosition - first).toNat =
          (fromPosition - (first + 1 : Nat)).toNat + 1 := by
        simp only [decide_eq_true_eq] at hlt
        omega
      rw [hsucc, drop_succ_cons]

theorem map_rows {α : Type} {key : EventRow → α} {keyOf : Message → α}
    (h : List.Forall₂ (RowOf serialization) rows events)
    (hkey : ∀ row event, RowOf serialization row event → keyOf event = key row) :
    rows.map key = events.map keyOf := by
  induction h with
  | nil => rfl
  | cons hrow _ ih => rw [map_cons, map_cons, ih, hkey _ _ hrow]

theorem selected_rows {key : EventRow → Nat} {keyOf : Message → Nat}
    (h : List.Forall₂ (RowOf serialization) rows events)
    (hkey : ∀ row event, RowOf serialization row event → keyOf event = key row)
    (hsorted : (events.map keyOf).Pairwise (· ≤ ·)) {limit : Option Int}
    (hlimit : limit.all (0 ≤ ·) ∨ events = []) :
    List.Forall₂ (RowOf serialization) (selected key rows limit) (sliceTo events limit) := by
  have hkeys := map_rows h hkey
  have hself : (rows.mergeSort fun one other => decide (key one ≤ key other)) = rows := by
    refine mergeSort_of_pairwise ?_
    rw [← hkeys, pairwise_map] at hsorted
    exact hsorted.imp fun hle => decide_eq_true hle
  cases limit with
  | none =>
    rw [selected, hself]
    exact h
  | some limit =>
    rw [selected, hself, sliceTo]
    rcases hlimit with hlimit | rfl
    · have hnot : ¬ limit < 0 := by simpa using hlimit
      rw [if_neg hnot, if_neg hnot]
      exact forall₂_take _ h
    · obtain rfl := forall₂_nil_right_iff.1 h
      split <;> simp

theorem pairwise_range (n : Nat) : (List.range n).Pairwise (· ≤ ·) :=
  List.pairwise_lt_range.imp fun h => Nat.le_of_lt h

/-! ## Reads -/

section

variable {store : InMemoryEventStore} {table : SQLiteEventStore}

section

variable (h : Alike serialization store table)

include h

theorem Alike.nextGlobalPosition : table.nextGlobalPosition = store.allEvents.length := by
  have hmap : table.rows.map (·.globalPosition + 1) =
      (List.range store.allEvents.length).map (· + 1) := by
    rw [← h.positions, List.map_map]
    exact map_rows h.rows fun row event hrow => congrArg (· + 1) hrow.place.1
  have hmax : ∀ n, ((List.range n).map (· + 1)).foldl max 0 = n := by
    intro n
    induction n with
    | zero => rfl
    | succ n ih => simp [range_succ, ih]
  rw [SQLiteEventStore.nextGlobalPosition, hmap, hmax]

theorem Alike.isSome_iff (name : String) :
    (store.streams[name]?).isSome = decide (0 < table.currentVersion name) := by
  have hsome := h.nonempty name
  rw [h.versions, ← h.streams]
  cases hstream : store.streams[name]? with
  | none => rfl
  | some events =>
    have hne : events ≠ [] := fun hnil => hsome (by rw [hstream, hnil])
    simpa using length_pos_iff.2 hne

theorem Alike.readStream (fresh : Fresh) {name : String}
    {fromPosition : Int} {maxCount : Option Int}
    (hfits : (fits fromPosition && maxCount.all fits) = true)
    (hfrom : 0 ≤ fromPosition ∨ ((store.streams[name]?).getD []).length ≤ -fromPosition)
    (hmax : maxCount.all (0 ≤ ·) ∨
      sliceFrom ((store.streams[name]?).getD []) fromPosition = []) :
    table.readStream serialization upcast fresh name fromPosition maxCount =
      store.readStream upcast name fromPosition maxCount := by
  rw [InMemoryEventStore.readStream, SQLiteEventStore.readStream, h.isSome_iff, h.versions, hfits]
  rw [h.streams] at hfrom hmax ⊢
  have hslice : sliceFrom (store.allEvents.filter (isOf name)) fromPosition =
      (store.allEvents.filter (isOf name)).filter fun event =>
        decide (fromPosition ≤ streamPositionOf event) := by
    have hrange := h.streamPositions name
    rw [range_eq_range'] at hrange
    rw [filter_eq_drop hrange, sliceFrom]
    split
    · have hzero : ((store.allEvents.filter (isOf name)).length + fromPosition).toNat = 0 := by
        omega
      have hzero' : (fromPosition - (0 : Nat)).toNat = 0 := by omega
      rw [hzero, hzero']
    · simp
  rw [hslice, filter_filter] at hmax ⊢
  have hrows := filter_rows h.rows (p := fun row =>
      row.streamName == name && decide (fromPosition ≤ row.streamPosition))
    (q := fun event => decide (fromPosition ≤ streamPositionOf event) && isOf name event)
    fun row _ event _ hrow => by
      rw [isOf, hrow.place.2.1, hrow.place.2.2, Bool.and_comm]
  have hsorted : ((store.allEvents.filter fun event =>
      decide (fromPosition ≤ streamPositionOf event) && isOf name event).map
        streamPositionOf).Pairwise (· ≤ ·) := by
    have hrange := pairwise_range (store.allEvents.filter (isOf name)).length
    rw [← h.streamPositions name] at hrange
    rw [← filter_filter]
    exact hrange.sublist (List.filter_sublist.map _)
  rw [bindPositions_rows (selected_rows hrows (fun row event hrow => hrow.place.2.1) hsorted hmax)]

end

/-- Every text the pattern of `LIKE` takes starts with the prefix itself. -/
def PlainPrefix (store : InMemoryEventStore) (streamPrefix : Option String) : Prop :=
  ∀ front ∈ streamPrefix, ∀ event ∈ store.allEvents,
    like (front.toList ++ ['%']) event.metadata.streamName.toList = true →
      front.toList.isPrefixOf event.metadata.streamName.toList = true

theorem like_of_isPrefixOf {front text : List Char} (h : front.isPrefixOf text = true) :
    like (front ++ ['%']) text = true := by
  induction front generalizing text with
  | nil =>
    rw [nil_append, like, any_eq_true]
    exact ⟨[], (mem_tails _ _).2 nil_suffix, rfl⟩
  | cons c front ih =>
    cases text with
    | nil => cases h
    | cons c' text =>
      rw [isPrefixOf_cons_cons, Bool.and_eq_true, beq_iff_eq] at h
      obtain ⟨rfl, h⟩ := h
      rw [cons_append, like.eq_def]
      split
      · rename_i heq
        cases heq
      · rename_i heq
        cases heq
        rw [any_eq_true]
        exact ⟨text, (mem_tails _ _).2 (suffix_cons _ _), ih h⟩
      · rename_i heq
        cases heq
        exact ih h
      · rename_i heq
        cases heq
        simpa using ih h

theorem Alike.readAll (h : Alike serialization store table) (fresh : Fresh)
    {fromPosition : Int} {maxCount : Option Int} {streamPrefix : Option String}
    (hfits : (fits fromPosition && maxCount.all fits) = true)
    (hplain : PlainPrefix store streamPrefix)
    (hmax : maxCount.all (0 ≤ ·) ∨ store.candidates fromPosition streamPrefix = []) :
    table.readAll serialization upcast fresh fromPosition maxCount streamPrefix =
      store.readAll upcast fromPosition maxCount streamPrefix := by
  rw [InMemoryEventStore.readAll, SQLiteEventStore.readAll, h.nextGlobalPosition, hfits]
  have hrows : List.Forall₂ (RowOf serialization) (table.rows.filter fun row =>
      decide (fromPosition ≤ row.globalPosition) && streamPrefix.all fun front =>
        like (front.toList ++ ['%']) row.streamName.toList)
      (store.candidates fromPosition streamPrefix) := by
    refine filter_rows h.rows fun row _ event hevent hrow => ?_
    rw [hrow.place.1]
    congr 1
    rw [← hrow.place.2.2, Bool.eq_iff_iff, Option.all_eq_true, Option.all_eq_true]
    exact ⟨fun hlike front hfront => hplain front hfront event hevent (hlike front hfront),
      fun hfronts front hfront => like_of_isPrefixOf (hfronts front hfront)⟩
  have hsorted : ((store.candidates fromPosition streamPrefix).map positionOf).Pairwise
      (· ≤ ·) := by
    have hrange := pairwise_range store.allEvents.length
    rw [← h.positions] at hrange
    exact hrange.sublist (List.filter_sublist.map _)
  rw [bindPositions_rows (selected_rows hrows (fun row event hrow => hrow.place.1) hsorted hmax)]

end

end Aiwatcher.Agentic
