import Aiwatcher.Store.Types

/-!
# Aiwatcher.Store.Scope

Which project an execution belongs to, and the one rule every workflow store applies
about it (`scope.rs`).

`appending_cases` is what the rule comes to for an append: it goes through on an
execution the binding admits, and writes an owner for the first append of a project's
execution only.
-/

namespace Aiwatcher.Store

open Engine

/-! ## Owners -/

/-- One project of one organization, by their uuids. -/
structure ProjectScope where
  organization : String
  project : String
  deriving DecidableEq, Repr

namespace ProjectScope

instance : Ord ProjectScope where
  compare := compareLex (compareOn organization) (compareOn project)

instance : Std.TransOrd ProjectScope :=
  inferInstanceAs (Std.TransCmp (compareLex (compareOn organization) (compareOn project)))

instance : Std.LawfulEqOrd ProjectScope :=
  Library.Table.lawfulEq_compareLex fun a b => by
    cases a
    cases b
    simp_all

end ProjectScope

structure Principal where
  provider : String
  subject : String
  deriving DecidableEq, Repr

/-- What an execution was started on. -/
structure OwnedDefinition where
  kind : DefinitionKind
  name : String
  revision : String
  planId : String
  deriving DecidableEq, Repr

/-- Who owns one execution, and what they started. -/
structure ExecutionOwnership where
  scope : ProjectScope
  principal : Principal
  definition : OwnedDefinition
  deriving DecidableEq, Repr

/-- Which side of the project boundary something is on. -/
inductive ExecutionScope where
  | global
  | project (scope : ProjectScope)
  deriving DecidableEq, Repr

/-- The sentence a refusal names this scope with. -/
def ExecutionScope.label : ExecutionScope → String
  | .global => "the unscoped path"
  | .project scope => s!"project {scope.project} of organization {scope.organization}"

def ExecutionOwnership.label (owner : ExecutionOwnership) : String :=
  (ExecutionScope.project owner.scope).label

/-! ## The rule -/

/-- What one store is bound to. -/
structure ScopeBinding where
  scope : ExecutionScope
  deriving DecidableEq, Repr

namespace ScopeBinding

def global : ScopeBinding := ⟨.global⟩

/-- Whether an execution with this recorded ownership is this store's. -/
def admits (binding : ScopeBinding) (recorded : Option ExecutionOwnership) (there : Bool) :
    Bool :=
  match binding.scope, recorded with
  | .global, none => true
  | .global, some _ => false
  | .project bound, some owner => owner.scope == bound
  | .project _, none => !there

/-- What a refusal says. -/
def refusal (binding : ScopeBinding) (execution : String)
    (recorded : Option ExecutionOwnership) : StoreError :=
  let holder := (recorded.map ExecutionOwnership.label).getD ExecutionScope.global.label
  .outOfScope (s!"{execution} belongs to {holder} and this workflow store is bound to " ++
    s!"{binding.scope.label}; a project's execution is never handled by another scope's path")

/-- The check every per-execution operation makes first. -/
def check (binding : ScopeBinding) (execution : String) (recorded : Option ExecutionOwnership)
    (there : Bool) : Except StoreError Unit :=
  if binding.admits recorded there then .ok () else .error (binding.refusal execution recorded)

/-- What one append may do: the ownership it writes, if it is the one that does. -/
def appending (binding : ScopeBinding) (execution : String)
    (establishing recorded : Option ExecutionOwnership) (streamIsEmpty : Bool) :
    Except StoreError (Option ExecutionOwnership) :=
  match binding.check execution recorded (!streamIsEmpty) with
  | .error refused => .error refused
  | .ok () =>
    match binding.scope, establishing with
    | _, none => .ok none
    | .global, some _ =>
      .error (.notInThisScope
        "establish project ownership: it is bound to the unscoped path")
    | .project bound, some wanted =>
      if wanted.scope ≠ bound then .error (binding.refusal execution (some wanted))
      else match recorded with
        | some held =>
          if held = wanted then .ok none
          else .error (.ownershipConflict execution held.label)
        | none =>
          if streamIsEmpty then .ok (some wanted)
          else .error (binding.refusal execution none)

/-- Refuse what a project-bound store has no answer for. -/
def refuseInstanceWide (binding : ScopeBinding) (what : String) : Except StoreError Unit :=
  match binding.scope with
  | .global => .ok ()
  | .project _ =>
    .error (.notInThisScope s!"{what} while bound to {binding.scope.label}")

theorem check_eq_ok {binding : ScopeBinding} {execution : String}
    {recorded : Option ExecutionOwnership} {there : Bool} {u : Unit} :
    binding.check execution recorded there = .ok u ↔ binding.admits recorded there = true := by
  unfold check
  split <;> simp_all

/-- **What the rule comes to**: an append goes through where the binding admits the
execution, and the owner it writes, if any, is the one it asked for, for an execution with
neither an owner nor a stream. -/
theorem appending_cases {binding : ScopeBinding} {execution : String}
    {establishing recorded written : Option ExecutionOwnership} {streamIsEmpty : Bool}
    (h : binding.appending execution establishing recorded streamIsEmpty = .ok written) :
    binding.admits recorded (!streamIsEmpty) = true ∧
      (written = none ∨ ∃ owner, written = some owner ∧ establishing = some owner ∧
        recorded = none ∧ streamIsEmpty = true ∧ binding.scope = .project owner.scope) := by
  unfold appending at h
  split at h
  · cases h
  · rename_i u hcheck
    refine ⟨check_eq_ok.mp hcheck, ?_⟩
    split at h
    · cases h
      exact .inl rfl
    · cases h
    · split at h
      · cases h
      · rename_i bound wanted hscope hbound
        split at h
        · split at h
          · cases h
            exact .inl rfl
          · cases h
        · split at h
          · cases h
            have hwanted : wanted.scope = bound := by simpa using hbound
            exact .inr ⟨wanted, rfl, rfl, rfl, ‹_›, hwanted ▸ hscope⟩
          · cases h

end ScopeBinding

end Aiwatcher.Store
