import Aiwatcher.Trace.Conserved

/-!
# Aiwatcher.Trace.Redelivered

Events that are delivered again.

A log is read with some events delivered again, beside the same log without them.  The same spans
are written, and the last record of a span says what its first complete one said, as long as no
redelivery makes the assembler write something else (`redelivery_is_harmless_when`).
-/

namespace Aiwatcher.Trace

open Library SpanAssembler List Option Table Machine

/-! ## Deliveries -/

/-- What a consumer is given.  The order a map is walked in is that of the assembler that is
given everything, and that of the one that is given the redeliveries not. -/
inductive Delivery where
  | event (event : RecordedEvent)
  | again (event : RecordedEvent)
  | sweep (now : OffsetDateTime) (order plainOrder : List SpanKey)
  | drain (order plainOrder : List SpanKey)

/-- The call a delivery makes. -/
def Delivery.call : Delivery → Call
  | event e | again e => .ingest e
  | sweep now order _ => .sweep now order
  | drain order _ => .drain order

/-- The call it makes where redeliveries are left out. -/
def Delivery.plainCall : Delivery → Option Call
  | event e => some (.ingest e)
  | again _ => none
  | sweep now _ order => some (.sweep now order)
  | drain _ order => some (.drain order)

/-- What is delivered again was delivered before. -/
def Known (before : List Delivery) (delivery : Delivery) : Prop :=
  ∀ event, delivery = .again event → .event event ∈ before

/-- The span a call closes by its end, and that end. -/
def closing (st : Taken) : Option (OpenSpan × RecordedEvent) :=
  match st.input with
  | .ingest event =>
    if (endOf event).isSome then
      (st.before.openSpans[keyOf event]?).map fun span => (span, event)
    else none
  | _ => none

/-- The two assemblers behind some deliveries, what the first has written, and the spans it has
closed by their ends. -/
structure Told where
  delivered : SpanAssembler
  plain : SpanAssembler
  written : List CompletedSpan
  plainWritten : List CompletedSpan
  closings : List (OpenSpan × RecordedEvent)

def told (config : AssemblerConfig) (floats : Floats) (deliveries : List Delivery) : Told where
  delivered := (assembling config floats).last .new (deliveries.map Delivery.call)
  plain := (assembling config floats).last .new (deliveries.filterMap Delivery.plainCall)
  written := (assembling config floats).emitted .new (deliveries.map Delivery.call)
  plainWritten := (assembling config floats).emitted .new (deliveries.filterMap Delivery.plainCall)
  closings := ((assembling config floats).run .new (deliveries.map Delivery.call)).filterMap closing

/-- How the span under a key was closed by its end for the first time. -/
def Told.firstClosing (told : Told) (key : SpanKey) : Option (OpenSpan × RecordedEvent) :=
  told.closings.find? fun entry => keyOf entry.2 == key

/-! ## What is asked of the records -/

/-- The first record of a span that was closed by its end. -/
def firstComplete (written : List CompletedSpan) (key : SpanKey) : Option CompletedSpan :=
  written.find? fun record => record.key == key && record.closedBy == some (.str closedByEvent)

def lastRecord (written : List CompletedSpan) (key : SpanKey) : Option CompletedSpan :=
  written.reverse.find? fun record => record.key == key

/-- The times, the status and the attributes are the same. -/
structure Keeps (last first : CompletedSpan) : Prop where
  start : last.start = first.start
  endAt : last.endAt = first.endAt
  status : last.status = first.status
  attributes : last.attributes = first.attributes

/-- Whether a span has a record. -/
def Wrote (written : List CompletedSpan) (key : SpanKey) : Prop :=
  ∃ record ∈ written, record.key = key

def Opened (assembler : SpanAssembler) (key : SpanKey) : Prop :=
  (assembler.openSpans[key]?).isSome = true

/-- The same spans are written, and the last record of each keeps what its first complete one
had. -/
structure Unharmed (told : Told) : Prop where
  ids : ∀ key, Wrote told.written key ↔ Wrote told.plainWritten key
  records : ∀ key first, firstComplete told.written key = some first →
    ∃ last, lastRecord told.written key = some last ∧ Keeps last first

/-! ## When it is harmless -/

/-- An open span stands as another one stood. -/
def sameSpan (span other : OpenSpan) : Bool :=
  span.start == other.start && span.attributes == other.attributes &&
    span.chunkCount == other.chunkCount

/-- An end says what another end said. -/
def sameEnd (floats : Floats) (event other : RecordedEvent) : Bool :=
  event.metadata.occurredAt == other.metadata.occurredAt &&
    event.metadata.publishedBy == other.metadata.publishedBy &&
    (endOf event).map (statusOf event) == (endOf other).map (statusOf other) &&
    payloadAttributes floats event == payloadAttributes floats other

/-- An end of a span that an end has closed before finds it open as it was then, and is that
end. -/
def endsAgain (floats : Floats) (told : Told) (event : RecordedEvent) : Bool :=
  match told.firstClosing (keyOf event) with
  | none => true
  | some first => (told.delivered.openSpans[keyOf event]?).any fun span =>
    sameSpan span first.1 && sameEnd floats event first.2

/-- A delivery is harmless behind some others: an end closes a span again only as before, no sweep
and no drain takes a span that an end has closed before, and a sweep takes a span without a record
only if it would without the redeliveries, and then. -/
def Harmless (config : AssemblerConfig) (floats : Floats) (before : List Delivery) :
    Delivery → Prop
  | .event event | .again event =>
    (endOf event).isSome = true → endsAgain floats (told config floats before) event = true
  | .sweep now order plainOrder =>
    (∀ key ∈ (told config floats before).delivered.stale config now order,
        (told config floats before).firstClosing key = none) ∧
      ∀ key, ¬ Wrote (told config floats before).written key →
        (key ∈ (told config floats before).delivered.stale config now order ↔
          key ∈ (told config floats before).plain.stale config now plainOrder)
  | .drain _ _ => ∀ key, Opened (told config floats before).delivered key →
      (told config floats before).firstClosing key = none

/-! ## Which spans a call opens, and which it writes -/

section Keys

variable {config : AssemblerConfig} {floats : Floats} {assembler after : SpanAssembler}
  {out : List CompletedSpan} {event : RecordedEvent} {key : SpanKey}

@[simp] theorem not_wrote_nil : ¬ Wrote [] key := by simp [Wrote]

theorem wrote_append {first second : List CompletedSpan} :
    Wrote (first ++ second) key ↔ Wrote first key ∨ Wrote second key := by
  simp [Wrote, or_and_right, exists_or]

theorem wrote_ingest (h : assembler.Keyed)
    (hingest : assembler.ingest config floats event = (out, after)) :
    Wrote out key ↔ (endOf event).isSome = true ∧ keyOf event = key := by
  cases ingested_ingest hingest with
  | ignored _ hend => simp [hend]
  | opened _ hend => simp [hend]
  | touched hend => simp [hend]
  | closed ok _ hend span hopen => simp [Wrote, hend, h _ _ hopen]
  | synthesised ok _ hend hopen =>
    have hkey : (assembler.synthesised floats event).key = keyOf event := rfl
    simp [Wrote, hend, hkey]

theorem opened_ingest (hingest : assembler.ingest config floats event = (out, after)) :
    Opened after key ↔ if keyOf event = key then
      isStart event = true ∨ Opened assembler key ∧ endOf event = none else Opened assembler key := by
  unfold Opened
  cases ingested_ingest hingest with
  | ignored hstart hend => simp [hstart, hend]
  | opened hstart hend hopen =>
    simp only [opening, openSpans_pushContainer, Table.getElem?_insert]
    split <;> simp [hstart]
  | touched hend span touched hopen htouched =>
    simp only [Table.getElem?_insert]
    split
    · rename_i hkey
      subst hkey
      simp [hopen, hend]
    · rfl
  | closed ok hstart hend span hopen =>
    simp only [openSpans_remove, getElem?_erase]
    split <;> simp [hstart, hend]
  | synthesised ok hstart hend hopen =>
    simp only [openSpans_popContainer]
    split
    · rename_i hkey
      subst hkey
      simp [hopen, hstart]
    · rfl

theorem wrote_abandon (h : assembler.Keyed) {message : String} {keys : List SpanKey} :
    Wrote (abandon message assembler keys).1 key ↔ key ∈ keys ∧ Opened assembler key := by
  unfold Wrote Opened
  simp only [mem_abandon, isSome_iff_exists]
  constructor
  · intro hwrote
    obtain ⟨record, ⟨k, hk, span, hspan, rfl⟩, hkey⟩ := hwrote
    rw [key_close, h _ _ hspan] at hkey
    subst hkey
    exact ⟨hk, span, hspan⟩
  · intro hopen
    obtain ⟨hkey, span, hspan⟩ := hopen
    exact ⟨_, ⟨key, hkey, span, hspan, rfl⟩, h _ _ hspan⟩

theorem opened_abandon {message : String} {keys : List SpanKey} :
    Opened (abandon message assembler keys).2 key ↔ key ∉ keys ∧ Opened assembler key := by
  unfold Opened
  rw [getElem?_abandon]
  split <;> simp_all

end Keys

/-! ## One more delivery -/

section Told

variable (config : AssemblerConfig) (floats : Floats) (before : List Delivery)

theorem keyed_delivered : (told config floats before).delivered.Keyed :=
  inv_last Keyed (fun _ _ _ _ h hstep => Keyed.step h hstep) keyed_new _

theorem keyed_plain : (told config floats before).plain.Keyed :=
  inv_last Keyed (fun _ _ _ _ h hstep => Keyed.step h hstep) keyed_new _

variable {config floats before}

theorem told_concat (delivery : Delivery) {out : List CompletedSpan} {after : SpanAssembler}
    (h : (assembling config floats).step (told config floats before).delivered delivery.call =
      some (out, after)) :
    (told config floats (before ++ [delivery])).delivered = after ∧
      (told config floats (before ++ [delivery])).written =
        (told config floats before).written ++ out ∧
      (told config floats (before ++ [delivery])).closings =
        (told config floats before).closings ++
          (closing ⟨(told config floats before).delivered, delivery.call, out, after⟩).toList := by
  unfold told at h ⊢
  dsimp only at h ⊢
  rw [map_append, map_singleton, Machine.last_append, Machine.emitted_append,
    Machine.run_append, filterMap_append]
  refine ⟨?_, ?_, ?_⟩
  · rw [last_cons_some h]
    rfl
  · rw [Machine.emitted, Machine.emitted, run_singleton h, flatMap_singleton]
  · rw [run_singleton h, filterMap_cons, filterMap_nil]
    cases closing ⟨(assembling config floats).last .new (before.map Delivery.call),
      delivery.call, out, after⟩ <;> rfl

theorem plain_concat_again (config : AssemblerConfig) (floats : Floats) (before : List Delivery)
    (event : RecordedEvent) :
    (told config floats (before ++ [.again event])).plain = (told config floats before).plain ∧
      (told config floats (before ++ [.again event])).plainWritten =
        (told config floats before).plainWritten := by
  simp [told, filterMap_cons, Delivery.plainCall]

theorem plain_concat (delivery : Delivery) {call : Call} {out : List CompletedSpan}
    {after : SpanAssembler} (hcall : delivery.plainCall = some call)
    (h : (assembling config floats).step (told config floats before).plain call =
      some (out, after)) :
    (told config floats (before ++ [delivery])).plain = after ∧
      (told config floats (before ++ [delivery])).plainWritten =
        (told config floats before).plainWritten ++ out := by
  unfold told at h ⊢
  dsimp only at h ⊢
  rw [filterMap_append, filterMap_cons, hcall, filterMap_nil, Machine.last_append,
    Machine.emitted_append]
  refine ⟨?_, ?_⟩
  · rw [last_cons_some h]
    rfl
  · rw [Machine.emitted, Machine.emitted, run_singleton h, flatMap_singleton]

end Told

/-! ## The same spans are written -/

section Ids

variable {config : AssemblerConfig} {floats : Floats} {before : List Delivery}

/-- The two assemblers have written the same spans, and of the others the same are open.  What was
delivered once is written or, if it is a start, open. -/
structure Alike (told : Told) (before : List Delivery) : Prop where
  wrote : ∀ key, Wrote told.written key ↔ Wrote told.plainWritten key
  opened : ∀ key, ¬ Wrote told.written key → (Opened told.delivered key ↔ Opened told.plain key)
  started : ∀ event, .event event ∈ before → isStart event = true →
    Wrote told.written (keyOf event) ∨ Opened told.delivered (keyOf event)
  ended : ∀ event, .event event ∈ before → (endOf event).isSome = true →
    Wrote told.written (keyOf event)

variable {event : RecordedEvent}

theorem kept_of_ingest {assembler after : SpanAssembler} {written out : List CompletedSpan}
    {key : SpanKey} (hingest : assembler.ingest config floats event = (out, after))
    (hkeyed : assembler.Keyed) (h : Wrote written key ∨ Opened assembler key) :
    Wrote (written ++ out) key ∨ Opened after key := by
  rw [wrote_append, wrote_ingest hkeyed hingest, opened_ingest hingest]
  by_cases hkey : keyOf event = key
  · cases hend : endOf event with
    | none =>
      simp only [hkey, if_true, and_true, isSome_none, Bool.false_eq_true, or_false]
      exact h.imp_right .inr
    | some ok => exact .inl (.inr ⟨rfl, hkey⟩)
  · simpa [hkey] using h

theorem kept_of_abandon {assembler : SpanAssembler} {written : List CompletedSpan}
    {key : SpanKey} {message : String} {keys : List SpanKey} (hkeyed : assembler.Keyed)
    (h : Wrote written key ∨ Opened assembler key) :
    Wrote (written ++ (abandon message assembler keys).1) key ∨
      Opened (abandon message assembler keys).2 key := by
  rw [wrote_append, wrote_abandon hkeyed, opened_abandon]
  by_cases hkey : key ∈ keys
  · simp_all
  · simp_all

section

variable (h : Alike (told config floats before) before)

include h

theorem alike_event :
    Alike (told config floats (before ++ [.event event])) (before ++ [.event event]) := by
  obtain ⟨out, after, hout⟩ : ∃ out after,
      (told config floats before).delivered.ingest config floats event = (out, after) :=
    ⟨_, _, rfl⟩
  obtain ⟨plainOut, plainAfter, hplain⟩ : ∃ out after,
      (told config floats before).plain.ingest config floats event = (out, after) := ⟨_, _, rfl⟩
  have hkeyed := keyed_delivered config floats before
  have hkeyed' := keyed_plain config floats before
  obtain ⟨hdelivered, hwritten, -⟩ := told_concat (.event event) (congrArg some hout)
  obtain ⟨hplainAfter, hplainWritten⟩ :=
    plain_concat (.event event) rfl (congrArg some hplain)
  constructor
  · intro key
    rw [hwritten, hplainWritten, wrote_append, wrote_append, wrote_ingest hkeyed hout,
      wrote_ingest hkeyed' hplain, h.wrote key]
  · intro key hnot
    rw [hwritten, wrote_append, not_or] at hnot
    rw [hdelivered, hplainAfter, opened_ingest hout, opened_ingest hplain, h.opened key hnot.1]
  · intro other hother hstart
    rw [hwritten, hdelivered]
    cases mem_append.mp hother with
    | inl hother => exact kept_of_ingest hout hkeyed (h.started other hother hstart)
    | inr hother =>
      cases mem_singleton.mp hother
      refine .inr ?_
      rw [opened_ingest hout, if_pos rfl]
      exact .inl hstart
  · intro other hother hend
    rw [hwritten, wrote_append]
    cases mem_append.mp hother with
    | inl hother => exact .inl (h.ended other hother hend)
    | inr hother =>
      cases mem_singleton.mp hother
      exact .inr ((wrote_ingest hkeyed hout).mpr ⟨hend, rfl⟩)

theorem alike_again (hknown : .event event ∈ before) :
    Alike (told config floats (before ++ [.again event])) (before ++ [.again event]) := by
  obtain ⟨out, after, hout⟩ : ∃ out after,
      (told config floats before).delivered.ingest config floats event = (out, after) :=
    ⟨_, _, rfl⟩
  have hkeyed := keyed_delivered config floats before
  obtain ⟨hdelivered, hwritten, -⟩ := told_concat (.again event) (congrArg some hout)
  obtain ⟨hplainAfter, hplainWritten⟩ :=
    plain_concat_again config floats before event
  have hsame : ∀ key, Wrote ((told config floats before).written ++ out) key ↔
      Wrote (told config floats before).written key := by
    intro key
    rw [wrote_append, wrote_ingest hkeyed hout]
    constructor
    · intro hwrote
      cases hwrote with
      | inl hwrote => exact hwrote
      | inr hend => exact hend.2 ▸ h.ended event hknown hend.1
    · exact .inl
  have hmem : ∀ other : RecordedEvent, .event other ∈ before ++ [.again event] →
      .event other ∈ before := by
    intro other hother
    simpa using hother
  constructor
  · intro key
    rw [hwritten, hplainWritten, hsame, h.wrote key]
  · intro key hnot
    rw [hwritten, hsame] at hnot
    rw [hdelivered, hplainAfter, opened_ingest hout, ← h.opened key hnot]
    -- a span without a record that is started again is open
    by_cases hkey : keyOf event = key
    · subst hkey
      have hend : endOf event = none := by
        rw [← not_isSome_iff_eq_none]
        exact fun hend => hnot (h.ended event hknown hend)
      have hstart : isStart event = true → Opened (told config floats before).delivered
          (keyOf event) := fun hstart => (h.started event hknown hstart).resolve_left hnot
      rw [if_pos rfl]
      simp only [hend, and_true, or_iff_right_iff_imp]
      exact hstart
    · rw [if_neg hkey]
  · intro other hother hstart
    rw [hwritten, hdelivered]
    exact kept_of_ingest hout hkeyed (h.started other (hmem other hother) hstart)
  · intro other hother hend
    rw [hwritten, hsame]
    exact h.ended other (hmem other hother) hend

theorem alike_abandon {delivery : Delivery} {call : Call} {message : String}
    {keys plainKeys : List SpanKey}
    (hevents : ∀ event, delivery ≠ .event event) (hcall : delivery.plainCall = some call)
    (hstep : (assembling config floats).step (told config floats before).delivered delivery.call =
      some (abandon message (told config floats before).delivered keys))
    (hplain : (assembling config floats).step (told config floats before).plain call =
      some (abandon message (told config floats before).plain plainKeys))
    (hkeys : ∀ key, ¬ Wrote (told config floats before).written key →
      (key ∈ keys ↔ key ∈ plainKeys)) :
    Alike (told config floats (before ++ [delivery])) (before ++ [delivery]) := by
  have hkeyed := keyed_delivered config floats before
  have hkeyed' := keyed_plain config floats before
  obtain ⟨hdelivered, hwritten, -⟩ := told_concat delivery hstep
  obtain ⟨hplainAfter, hplainWritten⟩ := plain_concat delivery hcall hplain
  have hmem : ∀ event : RecordedEvent, .event event ∈ before ++ [delivery] →
      .event event ∈ before := by
    intro event hevent
    refine (mem_append.mp hevent).resolve_right fun hlast => ?_
    exact hevents event (mem_singleton.mp hlast).symm
  constructor
  · intro key
    rw [hwritten, hplainWritten, wrote_append, wrote_append, wrote_abandon hkeyed,
      wrote_abandon hkeyed', ← h.wrote key]
    by_cases hwrote : Wrote (told config floats before).written key
    · simp [hwrote]
    · rw [hkeys key hwrote, h.opened key hwrote]
  · intro key hnot
    rw [hwritten, wrote_append, not_or] at hnot
    rw [hdelivered, hplainAfter, opened_abandon, opened_abandon, hkeys key hnot.1,
      h.opened key hnot.1]
  · intro event hevent hstart
    rw [hwritten, hdelivered]
    exact kept_of_abandon hkeyed (h.started event (hmem event hevent) hstart)
  · intro event hevent hend
    rw [hwritten, wrote_append]
    exact .inl (h.ended event (hmem event hevent) hend)

theorem alike_step {delivery : Delivery} (hknown : Known before delivery)
    (hharmless : Harmless config floats before delivery) :
    Alike (told config floats (before ++ [delivery])) (before ++ [delivery]) := by
  cases delivery with
  | event event => exact alike_event h
  | again event => exact alike_again h (hknown event rfl)
  | sweep now order plainOrder => exact alike_abandon h (by simp) rfl rfl rfl hharmless.2
  | drain order plainOrder =>
    refine alike_abandon h (by simp) rfl rfl rfl fun key hnot => ?_
    rw [mem_walk, mem_walk]
    exact h.opened key hnot

end

end Ids

/-! ## Their records keep what they said -/

section Records

variable {config : AssemblerConfig} {floats : Floats} {before : List Delivery}

variable {delivery : Delivery} {key : SpanKey}

theorem lastRecord_append {first second : List CompletedSpan} :
    lastRecord (first ++ second) key = (lastRecord second key).or (lastRecord first key) := by
  rw [lastRecord, reverse_append, find?_append]
  rfl

theorem firstComplete_append {first second : List CompletedSpan} :
    firstComplete (first ++ second) key =
      (firstComplete first key).or (firstComplete second key) :=
  find?_append

theorem lastRecord_eq_none {written : List CompletedSpan} (h : ¬ Wrote written key) :
    lastRecord written key = none := by
  rw [lastRecord, find?_eq_none]
  intro record hrecord hkey
  exact h ⟨record, mem_reverse.mp hrecord, by simpa using hkey⟩

/-- The first closing of a span is its first complete record, and the last record keeps that. -/
structure Kept (floats : Floats) (told : Told) : Prop where
  unclosed : ∀ key, told.firstClosing key = none → firstComplete told.written key = none
  closed : ∀ key span event, told.firstClosing key = some (span, event) →
    ∃ ok first last, endOf event = some ok ∧ firstComplete told.written key = some first ∧
      lastRecord told.written key = some last ∧ Keeps last first ∧
      first = finish floats event ok span closedByEvent

theorem Kept.keeps {told : Told} (h : Kept floats told) {first : CompletedSpan}
    (hfirst : firstComplete told.written key = some first) :
    ∃ last, lastRecord told.written key = some last ∧ Keeps last first := by
  cases hclosing : told.firstClosing key with
  | none =>
    rw [h.unclosed key hclosing] at hfirst
    cases hfirst
  | some closing =>
    obtain ⟨ok, record, last, -, hrecord, hlast, hkeeps, -⟩ := h.closed key _ _ hclosing
    rw [hfirst] at hrecord
    cases hrecord
    exact ⟨last, hlast, hkeeps⟩

theorem keeps_finish {event other : RecordedEvent} {span otherSpan : OpenSpan} {ok otherOk : Bool}
    (hspan : sameSpan span otherSpan = true) (hevent : sameEnd floats event other = true)
    (hend : endOf event = some ok) (hother : endOf other = some otherOk) (closedBy : String) :
    Keeps (finish floats event ok span closedBy)
      (finish floats other otherOk otherSpan closedBy) := by
  simp only [sameSpan, Bool.and_eq_true, beq_iff_eq] at hspan
  simp only [sameEnd, hend, hother, Bool.and_eq_true, beq_iff_eq, map_some, some.injEq] at hevent
  obtain ⟨⟨hstart, hattributes⟩, hchunks⟩ := hspan
  obtain ⟨⟨⟨hat, hpublished⟩, hstatus⟩, hpayload⟩ := hevent
  have hretained : retainPublisher event span.attributes =
      retainPublisher other otherSpan.attributes := by
    simp only [retainPublisher, hattributes, hpublished]
  constructor
  · exact hstart
  · simp only [finish, OpenSpan.close, hat, hstart]
  · exact hstatus
  · simp only [finish, OpenSpan.close, OpenSpan.closedAttributes, hretained, hpayload, hchunks]

theorem firstClosing_concat {closed : List (OpenSpan × RecordedEvent)} (h : (told config floats (before ++ [delivery])).closings =
      (told config floats before).closings ++ closed) :
    (told config floats (before ++ [delivery])).firstClosing key =
      ((told config floats before).firstClosing key).or
        (closed.find? fun entry => keyOf entry.2 == key) := by
  rw [Told.firstClosing, h, find?_append]
  rfl

/-- Records of spans without a closing that are no complete ones change nothing. -/
theorem kept_of_out {out : List CompletedSpan}
    (h : Kept floats (told config floats before))
    (hwritten : (told config floats (before ++ [delivery])).written =
      (told config floats before).written ++ out)
    (hclosings : (told config floats (before ++ [delivery])).closings =
      (told config floats before).closings)
    (hout : ∀ key, Wrote out key → (told config floats before).firstClosing key = none ∧
      firstComplete out key = none) :
    Kept floats (told config floats (before ++ [delivery])) := by
  have hclosing : ∀ key, (told config floats (before ++ [delivery])).firstClosing key =
      (told config floats before).firstClosing key := by
    intro key
    rw [Told.firstClosing, hclosings]
    rfl
  have hnone : ∀ key, firstComplete out key = none := by
    intro key
    rw [firstComplete, find?_eq_none]
    intro record hrecord hcomplete
    simp only [Bool.and_eq_true, beq_iff_eq] at hcomplete
    have hkey := (hout key ⟨record, hrecord, hcomplete.1⟩).2
    rw [firstComplete, find?_eq_none] at hkey
    exact hkey record hrecord (by simp [hcomplete])
  constructor
  · intro key hkey
    rw [hclosing] at hkey
    rw [hwritten, firstComplete_append, h.unclosed key hkey, hnone]
    rfl
  · intro key span event hkey
    rw [hclosing] at hkey
    obtain ⟨ok, first, last, hend, hfirst, hlast, hkeeps, hfinish⟩ := h.closed key span event hkey
    have hlastOut : lastRecord out key = none := by
      refine lastRecord_eq_none fun hwrote => ?_
      rw [(hout key hwrote).1] at hkey
      cases hkey
    refine ⟨ok, first, last, hend, ?_, ?_, hkeeps, hfinish⟩
    · rw [hwritten, firstComplete_append, hfirst]
      rfl
    · rw [hwritten, lastRecord_append, hlastOut, hlast]
      rfl

theorem kept_of_closed {event : RecordedEvent} {ok : Bool} {span : OpenSpan}
    (h : Kept floats (told config floats before)) (hend : endOf event = some ok)
    (hopen : (told config floats before).delivered.openSpans[keyOf event]? = some span)
    (hkey : span.key = keyOf event)
    (hwritten : (told config floats (before ++ [delivery])).written =
      (told config floats before).written ++ [finish floats event ok span closedByEvent])
    (hclosings : (told config floats (before ++ [delivery])).closings =
      (told config floats before).closings ++ [(span, event)])
    (hagain : endsAgain floats (told config floats before) event = true) :
    Kept floats (told config floats (before ++ [delivery])) := by
  have hclosing : ∀ key, (told config floats (before ++ [delivery])).firstClosing key =
      ((told config floats before).firstClosing key).or
        (if keyOf event = key then some (span, event) else none) := by
    intro key
    rw [firstClosing_concat hclosings]
    simp [find?_singleton]
  have hfirstOut : ∀ key, firstComplete [finish floats event ok span closedByEvent] key =
      if keyOf event = key then some (finish floats event ok span closedByEvent) else none := by
    intro key
    simp [firstComplete, find?_singleton, hkey]
  have hlastOut : ∀ key, lastRecord [finish floats event ok span closedByEvent] key =
      if keyOf event = key then some (finish floats event ok span closedByEvent) else none := by
    intro key
    simp [lastRecord, find?_singleton, hkey]
  constructor
  · intro key hnone
    rw [hclosing, or_eq_none_iff] at hnone
    rw [hwritten, firstComplete_append, h.unclosed key hnone.1, hfirstOut]
    split
    · rename_i heq
      rw [if_pos heq] at hnone
      cases hnone.2
    · rfl
  · intro key other otherEvent hsome
    rw [hclosing] at hsome
    rw [hwritten, firstComplete_append, lastRecord_append, hfirstOut, hlastOut]
    cases hbefore : (told config floats before).firstClosing key with
    | none =>
      rw [hbefore, none_or] at hsome
      split at hsome
      · rename_i heq
        cases hsome
        rw [h.unclosed key hbefore, if_pos heq]
        exact ⟨ok, _, _, hend, rfl, rfl, ⟨rfl, rfl, rfl, rfl⟩, rfl⟩
      · cases hsome
    | some first =>
      rw [hbefore, some_or] at hsome
      cases hsome
      obtain ⟨firstOk, record, last, hfirstEnd, hrecord, hlast, hkeeps, hfinish⟩ :=
        h.closed key _ _ hbefore
      by_cases heq : keyOf event = key
      · -- the end finds the span as the first one did
        subst heq
        simp only [endsAgain, hbefore, hopen, any_some, Bool.and_eq_true] at hagain
        refine ⟨firstOk, record, finish floats event ok span closedByEvent, hfirstEnd, ?_, ?_,
          ?_, hfinish⟩
        · rw [hrecord, some_or]
        · rw [if_pos rfl, some_or]
        · rw [hfinish]
          exact keeps_finish hagain.1 hagain.2 hend hfirstEnd _
      · refine ⟨firstOk, record, last, hfirstEnd, ?_, ?_, hkeeps, hfinish⟩
        · rw [hrecord, some_or]
        · rw [if_neg heq, none_or, hlast]

theorem kept_event {event : RecordedEvent}
    (hcall : delivery.call = .ingest event) (h : Kept floats (told config floats before))
    (hharmless : (endOf event).isSome = true →
      endsAgain floats (told config floats before) event = true) :
    Kept floats (told config floats (before ++ [delivery])) := by
  obtain ⟨out, after, hout⟩ : ∃ out after,
      (told config floats before).delivered.ingest config floats event = (out, after) :=
    ⟨_, _, rfl⟩
  have hkeyed := keyed_delivered config floats before
  obtain ⟨-, hwritten, hclosings⟩ := told_concat delivery (by rw [hcall]; exact congrArg some hout)
  rw [hcall] at hclosings
  cases ingested_ingest hout with
  | ignored _ hend =>
    exact kept_of_out h hwritten (by simpa [closing, hend] using hclosings) (by simp)
  | opened _ hend =>
    exact kept_of_out h hwritten (by simpa [closing, hend] using hclosings) (by simp)
  | touched hend =>
    exact kept_of_out h hwritten (by simpa [closing, hend] using hclosings) (by simp)
  | synthesised ok _ hend hopen =>
    refine kept_of_out h hwritten (by simpa [closing, hend, hopen] using hclosings) ?_
    intro key hwrote
    have hkey := ((wrote_ingest hkeyed hout).mp hwrote).2
    have hmade : closedBySynthesisedStart ≠ closedByEvent := by decide
    have hagain := hharmless (by simp [hend])
    subst hkey
    refine ⟨?_, by simp [firstComplete, hmade]⟩
    cases hfirst : (told config floats before).firstClosing (keyOf event) with
    | none => rfl
    | some first => simp [endsAgain, hfirst, hopen] at hagain
  | closed ok _ hend span hopen =>
    exact kept_of_closed h hend hopen (hkeyed _ _ hopen) hwritten
      (by simpa [closing, hend, hopen] using hclosings) (hharmless (by simp [hend]))

theorem kept_abandon {message : String} {keys : List SpanKey}
    (hcall : ∀ event, delivery.call ≠ .ingest event) (h : Kept floats (told config floats before))
    (hstep : (assembling config floats).step (told config floats before).delivered delivery.call =
      some (abandon message (told config floats before).delivered keys))
    (hkeys : ∀ key ∈ keys, Opened (told config floats before).delivered key →
      (told config floats before).firstClosing key = none) :
    Kept floats (told config floats (before ++ [delivery])) := by
  obtain ⟨-, hwritten, hclosings⟩ := told_concat delivery hstep
  have hnone : closing ⟨(told config floats before).delivered, delivery.call,
      (abandon message (told config floats before).delivered keys).1,
      (abandon message (told config floats before).delivered keys).2⟩ = none := by
    cases hd : delivery.call with
    | ingest event => exact absurd hd (hcall event)
    | sweep => rfl
    | drain => rfl
  refine kept_of_out h hwritten (by simpa [hnone] using hclosings) fun key hwrote => ?_
  obtain ⟨hkey, hopen⟩ := (wrote_abandon (keyed_delivered config floats before)).mp hwrote
  refine ⟨hkeys key hkey hopen, ?_⟩
  rw [firstComplete, find?_eq_none]
  intro record hrecord
  obtain ⟨k, -, span, -, rfl⟩ := mem_abandon.mp hrecord
  have hne : closedByTimeout ≠ closedByEvent := by decide
  simp [hne]

theorem kept_step (h : Kept floats (told config floats before))
    (hharmless : Harmless config floats before delivery) :
    Kept floats (told config floats (before ++ [delivery])) := by
  cases delivery with
  | event event => exact kept_event rfl h hharmless
  | again event => exact kept_event rfl h hharmless
  | sweep now order plainOrder =>
    exact kept_abandon (by simp [Delivery.call]) h rfl fun key hkey _ => hharmless.1 key hkey
  | drain order plainOrder =>
    exact kept_abandon (by simp [Delivery.call]) h rfl fun key _ hopen => hharmless key hopen

end Records

/-- **Redelivery is harmless** in every run of harmless deliveries: the same spans are written as
without the redeliveries, and the last record of each keeps what its first complete one had. -/
theorem redelivery_is_harmless_when (config : AssemblerConfig) (floats : Floats)
    (deliveries : List Delivery) (hknown : Along Known [] deliveries)
    (hharmless : Along (Harmless config floats) [] deliveries) :
    Unharmed (told config floats deliveries) := by
  have hstart : Alike (told config floats []) [] ∧ Kept floats (told config floats []) := by
    refine ⟨⟨?_, ?_, by simp, by simp⟩, ⟨?_, ?_⟩⟩
    · intro key
      rfl
    · intro key _
      rfl
    · intro key _
      rfl
    · intro key span event hnone
      cases hnone
  have hrun := Along.invariant
    (fun before => Alike (told config floats before) before ∧ Kept floats (told config floats before))
    (fun before delivery h hstep => ⟨alike_step h.1 hstep.1 hstep.2, kept_step h.2 hstep.2⟩)
    (hknown.and hharmless) hstart
  rw [List.nil_append] at hrun
  exact ⟨hrun.1.wrote, fun key first hfirst => hrun.2.keeps hfirst⟩

/-! ## A call is delivered again -/

/-- A call that is started and completed, delivered as a whole once more. -/
def replayed : List Delivery :=
  [.event (eventOf .llmStarted 7 none 1), .event (eventOf .llmCompleted 7 none 2),
    .again (eventOf .llmStarted 7 none 1), .again (eventOf .llmCompleted 7 none 2)]

theorem replayed_is_unharmed : Unharmed (told threeSpans noFloats replayed) := by
  refine redelivery_is_harmless_when threeSpans noFloats replayed ?_ ?_
  · refine ⟨?_, ?_, ?_, ?_, trivial⟩ <;> intro event hevent <;> simp_all
  · refine ⟨?_, ?_, ?_, ?_, trivial⟩ <;> intro hend <;>
      first | exact absurd hend (by decide) | decide +kernel

/-- Only the end of the call is delivered again: the last record has no start of its own. -/
def endedAgain : List Delivery :=
  [.event (eventOf .llmStarted 7 none 1), .event (eventOf .llmCompleted 7 none 3),
    .again (eventOf .llmCompleted 7 none 3)]

theorem endedAgain_is_harmed :
    Along Known [] endedAgain ∧ ¬ Unharmed (told threeSpans noFloats endedAgain) := by
  constructor
  · refine ⟨?_, ?_, ?_, trivial⟩ <;> intro event hevent <;> simp_all
  · intro hunharmed
    have hrecords :
        (firstComplete (told threeSpans noFloats endedAgain).written ⟨1, 7⟩).map (·.start) =
            some 1 ∧
          (lastRecord (told threeSpans noFloats endedAgain).written ⟨1, 7⟩).map (·.start) =
            some 3 := by
      decide +kernel
    obtain ⟨first, hfirst, hstart⟩ := Option.map_eq_some_iff.mp hrecords.1
    obtain ⟨last, hlast, hkeeps⟩ := hunharmed.records _ first hfirst
    rw [hlast, Option.map_some, hkeeps.start, hstart] at hrecords
    exact absurd hrecords.2 (by decide)

end Aiwatcher.Trace
