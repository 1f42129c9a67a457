import Aiwatcher.Trace.Assembler

/-!
# Aiwatcher.Trace.Conserved

What one call of the assembler can do.

An event does one of five things (`ingested_ingest`); a sweep and a drain close the spans under
the keys they take and leave the others (`getElem?_abandon`, `mem_abandon`).

A span that is opened is open until one record of it is written, and between two openings one
record closes it, by whichever of an end, a timeout, the cap and a shutdown (`spans_conserved`).

An end that finds its span not open writes a record too, which says that its start is made up.
-/

namespace Aiwatcher.Trace

open Library Table List Std

namespace SpanAssembler

variable {config : AssemblerConfig} {floats : Floats} {assembler after : SpanAssembler}
  {event : RecordedEvent} {key k : SpanKey} {span : OpenSpan} {record : CompletedSpan}

/-! ## The map of open spans -/

@[simp] theorem openSpans_pushContainer :
    (assembler.pushContainer span).openSpans = assembler.openSpans := by
  unfold pushContainer
  split <;> rfl

@[simp] theorem openSpans_popContainer :
    (assembler.popContainer span).openSpans = assembler.openSpans := by
  unfold popContainer
  split
  · rfl
  · split
    · rfl
    · dsimp only
      split <;> rfl

@[simp] theorem openSpans_remove :
    (assembler.remove key span).openSpans = assembler.openSpans.erase key := by
  simp [remove]

theorem mem_walk {order : List SpanKey} :
    key ∈ assembler.walk order ↔ assembler.openSpans[key]?.isSome = true := by
  simp only [walk, mem_append, mem_filter, mem_dedup, ExtTreeMap.mem_keys,
    ExtTreeMap.isSome_getElem?_eq_contains, contains_eq_mem, Bool.not_eq_eq_eq_not,
    Bool.not_true, decide_eq_false_iff_not, ExtTreeMap.mem_iff_contains]
  tauto

/-! ## Keyed assemblers -/

/-- Every span is open under its own key. -/
def Keyed (assembler : SpanAssembler) : Prop :=
  ∀ (key : SpanKey) (span : OpenSpan), assembler.openSpans[key]? = some span → span.key = key

theorem keyed_new : Keyed .new := by
  intro key span h
  simp [new] at h

theorem Keyed.insert (h : assembler.Keyed) (hkey : span.key = key) {runs} :
    Keyed ⟨assembler.openSpans.insert key span, runs⟩ :=
  forall_insert hkey h

theorem Keyed.remove (h : assembler.Keyed) : (assembler.remove key span).Keyed := by
  intro k other hother
  rw [openSpans_remove] at hother
  exact h k other (of_erase hother).2

/-! ## One event -/

/-- A span with other times, chunks and events is the span it was. -/
structure Touched (span touched : OpenSpan) : Prop where
  key : touched.key = span.key
  parentSpanId : touched.parentSpanId = span.parentSpanId
  start : touched.start = span.start
  attributes : touched.attributes = span.attributes

/-- The span a start opens. -/
def opening (floats : Floats) (assembler : SpanAssembler) (event : RecordedEvent) :
    SpanAssembler :=
  let span := assembler.started floats event
  let pushed := assembler.pushContainer span
  { pushed with openSpans := pushed.openSpans.insert (keyOf event) span }

/-- Whether an event ends a span, and how. -/
def endOf (event : RecordedEvent) : Option Bool :=
  if !event.eventType.formsSpan then none
  else match event.eventType.phase with
    | some (.ended ok) => some ok
    | _ => none

/-- Whether an event starts a span. -/
def isStart (event : RecordedEvent) : Bool :=
  event.eventType.formsSpan && event.eventType.phase == some .start

/-- What an event does, by what it is and whether its span is open. -/
inductive Ingested (config : AssemblerConfig) (floats : Floats) (assembler : SpanAssembler)
    (event : RecordedEvent) : List CompletedSpan → SpanAssembler → Prop where
  | ignored (hstart : isStart event = false) (hend : endOf event = none) :
      Ingested config floats assembler event [] assembler
  | opened (hstart : isStart event = true) (hend : endOf event = none)
      (hopen : assembler.openSpans[keyOf event]? = none) :
      Ingested config floats assembler event [] (opening floats assembler event)
  | touched (hend : endOf event = none) (span touched : OpenSpan)
      (hopen : assembler.openSpans[keyOf event]? = some span) (h : Touched span touched) :
      Ingested config floats assembler event []
        { assembler with openSpans := assembler.openSpans.insert (keyOf event) touched }
  | closed (ok : Bool) (hstart : isStart event = false) (hend : endOf event = some ok)
      (span : OpenSpan) (hopen : assembler.openSpans[keyOf event]? = some span) :
      Ingested config floats assembler event [finish floats event ok span closedByEvent]
        (assembler.remove (keyOf event) span)
  | synthesised (ok : Bool) (hstart : isStart event = false) (hend : endOf event = some ok)
      (hopen : assembler.openSpans[keyOf event]? = none) :
      Ingested config floats assembler event
        [finish floats event ok (assembler.synthesised floats event) closedBySynthesisedStart]
        (assembler.popContainer (assembler.synthesised floats event))

theorem touched_pointOn : Touched span (pointOn config event span) := by
  unfold pointOn
  split <;> exact ⟨rfl, rfl, rfl, rfl⟩

variable {out : List CompletedSpan}

theorem ingested_ingest (h : assembler.ingest config floats event = (out, after)) :
    Ingested config floats assembler event out after := by
  unfold ingest at h
  cases hforms : event.eventType.formsSpan with
  | false =>
    simp only [hforms, Bool.not_false, if_true, Prod.mk.injEq] at h
    obtain ⟨rfl, rfl⟩ := h
    exact .ignored (by simp [isStart, hforms]) (by simp [endOf, hforms])
  | true =>
    simp only [hforms, Bool.not_true, Bool.false_eq_true, if_false] at h
    cases hphase : event.eventType.phase with
    | none =>
      simp only [hphase, Prod.mk.injEq] at h
      obtain ⟨rfl, rfl⟩ := h
      exact .ignored (by simp [isStart, hphase]) (by simp [endOf, hforms, hphase])
    | some phase =>
      cases phase with
      | start =>
        simp only [hphase, Prod.mk.injEq] at h
        obtain ⟨rfl, rfl⟩ := h
        have hstart : isStart event = true := by simp [isStart, hforms, hphase]
        have hend : endOf event = none := by simp [endOf, hphase]
        unfold openSpan
        cases hopen : assembler.openSpans[keyOf event]? with
        | none => exact .opened hstart hend hopen
        | some existing => exact .touched hend existing _ hopen ⟨rfl, rfl, rfl, rfl⟩
      | point =>
        simp only [hphase, Prod.mk.injEq] at h
        obtain ⟨rfl, rfl⟩ := h
        have hend : endOf event = none := by simp [endOf, hphase]
        unfold recordPoint
        cases hopen : assembler.openSpans[keyOf event]? with
        | none => exact .ignored (by simp [isStart, hphase]) hend
        | some span => exact .touched hend span _ hopen touched_pointOn
      | ended ok =>
        have hstart : isStart event = false := by simp [isStart, hphase]
        have hend : endOf event = some ok := by simp [endOf, hforms, hphase]
        simp only [hphase, closeSpan] at h
        cases hopen : assembler.openSpans[keyOf event]? with
        | none =>
          rw [hopen] at h
          cases h
          exact .synthesised ok hstart hend hopen
        | some span =>
          rw [hopen] at h
          cases h
          exact .closed ok hstart hend span hopen

/-! ## Sweeps and drains -/

theorem getElem?_abandon (message : String) (assembler : SpanAssembler) (keys : List SpanKey)
    (k : SpanKey) : (abandon message assembler keys).2.openSpans[k]? =
      if k ∈ keys then none else assembler.openSpans[k]? := by
  induction keys generalizing assembler with
  | nil => simp [abandon]
  | cons key keys ih =>
    rw [abandon]
    cases hopen : assembler.openSpans[key]? with
    | none =>
      rw [ih]
      by_cases hkey : k = key
      · simp [hkey, hopen]
      · simp [hkey]
    | some span =>
      rw [ih, openSpans_remove, getElem?_erase]
      by_cases hkey : k = key
      · simp [hkey]
      · simp [hkey, Ne.symm hkey]

/-- What a sweep or a drain writes: the spans it takes, as errors, each where it stood. -/
theorem mem_abandon {message : String} {keys : List SpanKey} :
    record ∈ (abandon message assembler keys).1 ↔
      ∃ key ∈ keys, ∃ span, assembler.openSpans[key]? = some span ∧
        record = span.close span.lastSeen (.error message) closedByTimeout [] := by
  induction keys generalizing assembler with
  | nil => simp [abandon]
  | cons key keys ih =>
    rw [abandon]
    cases hopen : assembler.openSpans[key]? with
    | none =>
      rw [ih]
      constructor
      · rintro ⟨k, hk, span, hspan, hrecord⟩
        exact ⟨k, mem_cons_of_mem _ hk, span, hspan, hrecord⟩
      · rintro ⟨k, hk, span, hspan, hrecord⟩
        rcases mem_cons.mp hk with rfl | hk
        · rw [hopen] at hspan
          cases hspan
        · exact ⟨k, hk, span, hspan, hrecord⟩
    | some span =>
      rw [mem_cons, ih]
      constructor
      · rintro (rfl | ⟨k, hk, other, hother, hrecord⟩)
        · exact ⟨key, mem_cons_self, span, hopen, rfl⟩
        · rw [openSpans_remove] at hother
          exact ⟨k, mem_cons_of_mem _ hk, other, (of_erase hother).2, hrecord⟩
      · rintro ⟨k, hk, other, hother, hrecord⟩
        by_cases hkey : key = k
        · subst hkey
          rw [hopen] at hother
          cases hother
          exact .inl hrecord
        · rcases mem_cons.mp hk with rfl | hk
          · exact absurd rfl hkey
          · refine .inr ⟨k, hk, other, ?_, hrecord⟩
            rw [openSpans_remove, getElem?_erase, if_neg hkey, hother]

theorem Keyed.abandon (h : assembler.Keyed) (message : String) (keys : List SpanKey) :
    (abandon message assembler keys).2.Keyed := by
  intro k span hspan
  rw [getElem?_abandon] at hspan
  split at hspan
  · cases hspan
  · exact h k span hspan

theorem step_cases {call : Call}
    (h : (assembling config floats).step assembler call = some (out, after)) :
    (∃ event, call = .ingest event ∧ Ingested config floats assembler event out after) ∨
      ∃ message keys, (∀ event, call ≠ .ingest event) ∧
        abandon message assembler keys = (out, after) := by
  cases call with
  | ingest event => exact .inl ⟨event, rfl, ingested_ingest (Option.some.inj h)⟩
  | sweep now order => exact .inr ⟨_, _, by simp, Option.some.inj h⟩
  | drain order => exact .inr ⟨_, _, by simp, Option.some.inj h⟩

theorem Keyed.step {call : Call} (h : assembler.Keyed)
    (hstep : (assembling config floats).step assembler call = some (out, after)) : after.Keyed := by
  rcases step_cases hstep with ⟨event, -, hevent⟩ | ⟨message, keys, -, habandon⟩
  · cases hevent with
    | ignored => exact h
    | opened =>
      intro k span hspan
      have hspan' : (assembler.openSpans.insert (keyOf event)
          (assembler.started floats event))[k]? = some span := by
        simpa [opening] using hspan
      obtain ⟨heq, rfl⟩ | ⟨-, hspan'⟩ := of_insert hspan'
      · exact heq
      · exact h k span hspan'
    | touched _ span touched hopen htouched => exact h.insert (htouched.key.trans (h _ _ hopen))
    | closed => exact h.remove
    | synthesised =>
      intro k span hspan
      rw [openSpans_popContainer] at hspan
      exact h k span hspan
  · have hkeyed := h.abandon message keys
    rwa [habandon] at hkeyed

end SpanAssembler

open SpanAssembler

/-! ## How a record was closed -/

/-- What a record says of how it was closed. -/
def CompletedSpan.closedBy (record : CompletedSpan) : Option AttrValue :=
  (record.attributes.reverse.find? fun attr => attr.1 == closedByKey).map Prod.snd

@[simp] theorem closedBy_close (span : OpenSpan) (endAt : OffsetDateTime) (status : SpanStatus)
    (closedBy : String) (extra : List Attr) :
    (span.close endAt status closedBy extra).closedBy = some (.str closedBy) := by
  have hkey : (chunkCountKey == closedByKey) = false := by decide
  unfold CompletedSpan.closedBy OpenSpan.close OpenSpan.closedAttributes
  dsimp only
  split <;> simp [hkey]

@[simp] theorem closedBy_finish (floats : Floats) (event : RecordedEvent) (ok : Bool)
    (span : OpenSpan) (closedBy : String) :
    (finish floats event ok span closedBy).closedBy = some (.str closedBy) :=
  closedBy_close _ _ _ _ _

@[simp] theorem key_close (span : OpenSpan) (endAt : OffsetDateTime) (status : SpanStatus)
    (closedBy : String) (extra : List Attr) :
    (span.close endAt status closedBy extra).key = span.key := rfl

@[simp] theorem key_finish (floats : Floats) (event : RecordedEvent) (ok : Bool)
    (span : OpenSpan) (closedBy : String) :
    (finish floats event ok span closedBy).key = span.key := rfl

/-- Whether a record is of a span whose start was never seen. -/
def isMadeUp (record : CompletedSpan) : Bool :=
  record.closedBy == some (.str closedBySynthesisedStart)

/-- Whether a record closes the span under a key. -/
def ends (key : SpanKey) (record : CompletedSpan) : Bool :=
  record.key == key && !isMadeUp record

/-! ## One step -/

/-- A call the assembler has taken. -/
abbrev Taken := Step SpanAssembler Call CompletedSpan

/-- Whether a call opens the span under a key. -/
def opens (key : SpanKey) (st : Taken) : Bool :=
  match st.input with
  | .ingest event =>
    isStart event && keyOf event == key && (st.before.openSpans[key]?).isNone
  | _ => false

/-- One, while the span under a key is open. -/
def level (key : SpanKey) (assembler : SpanAssembler) : Nat :=
  if (assembler.openSpans[key]?).isSome then 1 else 0

section Step

variable {config : AssemblerConfig} {floats : Floats} {assembler after : SpanAssembler}
  {out : List CompletedSpan} {key : SpanKey} {call : Call}

theorem level_abandon (h : assembler.Keyed) (message : String) (keys : List SpanKey) :
    level key assembler = level key (abandon message assembler keys).2 +
      (abandon message assembler keys).1.countP (ends key) := by
  induction keys generalizing assembler with
  | nil => simp [abandon]
  | cons k keys ih =>
    rw [abandon]
    cases hopen : assembler.openSpans[k]? with
    | none => exact ih h
    | some span =>
      have hremoved : (assembler.remove k span).Keyed := h.remove
      have hrest := ih hremoved
      have hends : ends key (span.close span.lastSeen (.error message) closedByTimeout []) =
          decide (k = key) := by
        have hmade : closedByTimeout ≠ closedBySynthesisedStart := by decide
        simp [ends, isMadeUp, hmade, h k span hopen, Bool.beq_eq_decide_eq]
      rw [countP_cons, hends, ← Nat.add_assoc, ← hrest]
      simp only [level, openSpans_remove, getElem?_erase]
      by_cases hk : k = key
      · subst hk
        simp [hopen]
      · simp [hk]

theorem level_step (h : assembler.Keyed)
    (hstep : (assembling config floats).step assembler call = some (out, after)) :
    level key assembler + (opens key ⟨assembler, call, out, after⟩).toNat =
      level key after + out.countP (ends key) := by
  rcases step_cases hstep with ⟨event, rfl, hevent⟩ | ⟨message, keys, hcall, habandon⟩
  · cases hevent with
    | ignored hstart hend => simp [opens, hstart]
    | opened hstart hend hopen =>
      simp only [opens, hstart, Bool.true_and, level, opening, openSpans_pushContainer,
        Table.getElem?_insert, countP_nil]
      by_cases hkey : keyOf event = key
      · subst hkey
        simp [hopen]
      · simp [hkey]
    | touched hend span touched hopen htouched =>
      simp only [opens, level, Table.getElem?_insert, countP_nil]
      by_cases hkey : keyOf event = key
      · subst hkey
        simp [hopen]
      · simp [hkey]
    | closed ok hstart hend span hopen =>
      have hmade : closedByEvent ≠ closedBySynthesisedStart := by decide
      simp only [opens, hstart, Bool.false_and, level, openSpans_remove,
        getElem?_erase, countP_singleton, ends, isMadeUp, closedBy_finish,
        key_finish, h _ _ hopen]
      by_cases hkey : keyOf event = key
      · subst hkey
        simp [hopen, hmade]
      · simp [hkey]
    | synthesised ok hstart hend hopen => simp [opens, hstart, level, ends, isMadeUp]
  · have hopens : opens key ⟨assembler, call, out, after⟩ = false := by
      cases call with
      | ingest event => exact absurd rfl (hcall event)
      | sweep => rfl
      | drain => rfl
    have hlevel : level key assembler = level key (abandon message assembler keys).2 +
        (abandon message assembler keys).1.countP (ends key) := level_abandon h message keys
    rw [habandon] at hlevel
    rw [hopens]
    exact hlevel

theorem madeUp_step {record : CompletedSpan}
    (hstep : (assembling config floats).step assembler call = some (out, after))
    (hrecord : record ∈ out) (hmade : isMadeUp record = true) :
    ∃ event, call = .ingest event ∧ keyOf event = record.key ∧ (endOf event).isSome = true ∧
      assembler.openSpans[record.key]? = none ∧ after.openSpans[record.key]? = none := by
  rcases step_cases hstep with ⟨event, rfl, hevent⟩ | ⟨message, keys, -, habandon⟩
  · cases hevent with
    | ignored => cases hrecord
    | opened => cases hrecord
    | touched => cases hrecord
    | closed ok hstart hend span hopen =>
      cases mem_singleton.mp hrecord
      have hne : closedByEvent ≠ closedBySynthesisedStart := by decide
      simp [isMadeUp, hne] at hmade
    | synthesised ok hstart hend hopen =>
      cases mem_singleton.mp hrecord
      exact ⟨event, rfl, rfl, by simp [hend], hopen, by rwa [openSpans_popContainer]⟩
  · have hmem : record ∈ (abandon message assembler keys).1 := by rwa [habandon]
    obtain ⟨key, -, span, -, rfl⟩ := mem_abandon.mp hmem
    have hne : closedByTimeout ≠ closedBySynthesisedStart := by decide
    simp [isMadeUp, hne] at hmade

end Step

/-! ## Runs -/

section Run

variable (config : AssemblerConfig) (floats : Floats) (key : SpanKey)

/-- How often the span under a key is opened. -/
def openings (run : List Taken) : Nat := run.countP (opens key)

/-- How many records close the span under a key. -/
def endings (run : List Taken) : Nat := (run.flatMap (·.out)).countP (ends key)

/-- What a run does with the spans of one key. -/
structure Conserved (key : SpanKey) (run : List Taken) (last : SpanAssembler) : Prop where
  /-- Every opening is closed by a record of its own, or still open. -/
  balance : openings key run = endings key run + level key last
  /-- Between two openings one record closes the span. -/
  between : ∀ before first between second after,
    run = before ++ (first :: between) ++ (second :: after) → opens key first = true →
      opens key second = true → openings key between = 0 → endings key (first :: between) = 1
  /-- Any other record is that of an end that finds the span not open, and opens nothing. -/
  madeUp : ∀ st ∈ run, ∀ record ∈ st.out, record.key = key → isMadeUp record = true →
    ∃ event, st.input = .ingest event ∧ keyOf event = key ∧ (endOf event).isSome = true ∧
      st.before.openSpans[key]? = none ∧ st.after.openSpans[key]? = none

theorem balance_assembling {s : SpanAssembler} (h : s.Keyed) (calls : List Call) :
    level key s + openings key ((assembling config floats).run s calls) =
      level key ((assembling config floats).last s calls) +
        endings key ((assembling config floats).run s calls) := by
  have hrun := Machine.balance_run (M := assembling config floats) Keyed
    (fun _ _ _ _ hinv hstep => Keyed.step hinv hstep) (level key) (fun st => (opens key st).toNat)
    (fun st => st.out.countP (ends key)) (fun _ hinv hstep => level_step hinv hstep) h calls
  have hopened : ∀ run : List Taken,
      (run.map fun st => (opens key st).toNat).sum = openings key run := by
    intro run
    induction run with
    | nil => rfl
    | cons st run ih =>
      rw [map_cons, sum_cons, ih, openings, openings, countP_cons]
      cases opens key st <;> simp [Nat.add_comm]
  have hended : ∀ run : List Taken,
      (run.map fun st => st.out.countP (ends key)).sum = endings key run := by
    intro run
    simp only [endings, countP_flatMap, Function.comp_def]
  rwa [hopened, hended] at hrun

/-- **Span conservation**, for every key and every run of calls. -/
theorem spans_conserved (calls : List Call) :
    Conserved key ((assembling config floats).run .new calls)
      ((assembling config floats).last .new calls) := by
  have hkeyed : ∀ calls, ((assembling config floats).last .new calls).Keyed := fun calls =>
    Machine.inv_last Keyed (fun _ _ _ _ hinv hstep => Keyed.step hinv hstep) keyed_new calls
  constructor
  · have hbalance := balance_assembling config floats key keyed_new calls
    have hnew : level key .new = 0 := by simp [level, new]
    omega
  · intro before first between second after hrun hfirst hsecond hnone
    rw [List.append_assoc] at hrun
    obtain ⟨calls₁, calls₂, rfl, -, hrest⟩ := Machine.exists_split_run hrun
    obtain ⟨calls₃, calls₄, rfl, hsegment, hlast⟩ := Machine.exists_split_run hrest
    -- the span is not open where the two openings are, so what was opened was closed
    have hbalance := balance_assembling config floats key (hkeyed calls₁) calls₃
    rw [hsegment] at hbalance
    have hclosed : ∀ st : Taken, opens key st = true → level key st.before = 0 := by
      intro st hst
      unfold opens at hst
      split at hst
      · simp only [Bool.and_eq_true, Option.isNone_iff_eq_none] at hst
        simp [level, hst.2]
      · cases hst
    have h₁ := hclosed first hfirst
    rw [Machine.before_of_run_cons hsegment] at h₁
    have h₂ := hclosed second hsecond
    rw [Machine.before_of_run_cons hlast] at h₂
    have hopened : openings key (first :: between) = 1 := by
      rw [openings, List.countP_cons, hfirst]
      exact congrArg (· + 1) hnone
    omega
  · intro st hst record hrecord hkey hmade
    obtain ⟨event, hcall, hevent, hend, hbefore, hafter⟩ :=
      madeUp_step (Machine.step_of_mem_run hst) hrecord hmade
    rw [hkey] at hevent hbefore hafter
    exact ⟨event, hcall, hevent, hend, hbefore, hafter⟩

end Run

/-! ## An end is seen twice -/

/-- An event of the run `run-1` about a span, with an empty payload. -/
def eventOf (eventType : EventType) (spanId : SpanId) (parent : Option SpanId)
    (occurredAt : OffsetDateTime) : RecordedEvent where
  eventType := eventType
  data := .object []
  metadata := ⟨"message", "run:run-1", 0, 1, spanId, parent, "", "", "run-1", none, none, none,
    none, none, none, none, none, none, none, "", 1, ⟨"service", none, "rust", none⟩, occurredAt,
    occurredAt⟩

/-- No payload has a number. -/
def noFloats : Floats := ⟨fun n => n, fun n => n.toUInt64, fun _ => none, fun _ => 0⟩

def threeSpans : AssemblerConfig := ⟨Duration.seconds 900, 3, true⟩

/-- A call is started, ends twice and is started again: two records lie between the openings. -/
theorem twoRecords_between_openings :
    let run := (assembling threeSpans noFloats).run .new
      [.ingest (eventOf .llmStarted 7 none 1), .ingest (eventOf .llmCompleted 7 none 2),
        .ingest (eventOf .llmCompleted 7 none 2), .ingest (eventOf .llmStarted 7 none 3)]
    run.map (opens ⟨1, 7⟩) = [true, false, false, true] ∧
      run.map (fun st => st.out.map CompletedSpan.key) = [[], [⟨1, 7⟩], [⟨1, 7⟩], []] := by
  decide +kernel

end Aiwatcher.Trace
