import Aiwatcher.Engine.Canonical
import Aiwatcher.Store.Scope

/-!
# Aiwatcher.Store.Identity

The id a run will have (`start.rs`).  An id that is derived says what it was derived from:
`ids_agree_iff`.
-/

namespace Aiwatcher.Store

open Engine Library List

/-- Which id a start asks for: this one, the one of a key, or a new one. -/
inductive RunIdentity where
  | named (id : String)
  | key (key : String)
  | fresh
  deriving DecidableEq

/-- The id, once there is a plan and a scope; `uuid` is the new one a start without a key takes. -/
def RunIdentity.of (deriveUuid : String → String) (uuid : String) (plan : ExecutionPlan)
    (scope : ExecutionScope) (identity : RunIdentity) : String :=
  match identity, scope with
  | .named id, .global => id
  | .key text, .global =>
    deriveUuid ("aiwatcher/execution/request/" ++ plan.planId ++ "/" ++ text)
  | .named id, .project p =>
    deriveUuid ("aiwatcher/execution/project/" ++ p.organization ++ "/" ++ p.project ++
      "/named/" ++ id)
  | .key text, .project p =>
    deriveUuid ("aiwatcher/execution/project/" ++ p.organization ++ "/" ++ p.project ++
      "/request/" ++ plan.planId ++ "/" ++ text)
  | .fresh, _ => uuid

/-- What an id is derived from. -/
inductive Origin where
  | keyed (scope : ExecutionScope) (planId key : String)
  | named (scope : ProjectScope) (id : String)

/-- A name without a project is an id as it stands, and a new id is derived from nothing. -/
def RunIdentity.origin? (plan : ExecutionPlan) : ExecutionScope → RunIdentity → Option Origin
  | scope, .key text => some (.keyed scope plan.planId text)
  | .project p, .named id => some (.named p id)
  | .global, .named _ | _, .fresh => none

/-- No part of a text that the next one stands behind holds the separator: neither a uuid nor a
digest does. -/
def Origin.Plain : Origin → Prop
  | .keyed .global planId _ => '/' ∉ planId.toList
  | .keyed (.project p) planId _ =>
    '/' ∉ p.organization.toList ∧ '/' ∉ p.project.toList ∧ '/' ∉ planId.toList
  | .named p _ => '/' ∉ p.organization.toList ∧ '/' ∉ p.project.toList

def Origin.text : Origin → String
  | .keyed .global planId key => "aiwatcher/execution/request/" ++ planId ++ "/" ++ key
  | .keyed (.project p) planId key =>
    "aiwatcher/execution/project/" ++ p.organization ++ "/" ++ p.project ++ "/request/" ++
      planId ++ "/" ++ key
  | .named p id =>
    "aiwatcher/execution/project/" ++ p.organization ++ "/" ++ p.project ++ "/named/" ++ id

theorem of_eq_text {deriveUuid : String → String} {uuid : String} {plan : ExecutionPlan}
    {scope : ExecutionScope} {identity : RunIdentity} {origin : Origin}
    (h : identity.origin? plan scope = some origin) :
    identity.of deriveUuid uuid plan scope = deriveUuid origin.text := by
  cases identity <;> cases scope <;> cases h <;> rfl

/-- Two texts split at their first separator split alike. -/
theorem split_inj {front front' back back' : List Char} (h : '/' ∉ front) (h' : '/' ∉ front')
    (heq : front ++ '/' :: back = front' ++ '/' :: back') : front = front' ∧ back = back' := by
  have hreverse := congrArg reverse heq
  simp only [reverse_append, reverse_cons, append_assoc, singleton_append]
    at hreverse
  have hsplit := Text.append_cons_inj_of_notMem_right (by simpa) (by simpa) hreverse
  simpa [and_comm] using hsplit

theorem scope_inj {p q : ProjectScope} {back back' : List Char}
    (hp : '/' ∉ p.organization.toList ∧ '/' ∉ p.project.toList)
    (hq : '/' ∉ q.organization.toList ∧ '/' ∉ q.project.toList)
    (h : p.organization.toList ++ '/' :: (p.project.toList ++ '/' :: back) =
      q.organization.toList ++ '/' :: (q.project.toList ++ '/' :: back')) : p = q ∧ back = back' := by
  obtain ⟨horganization, hrest⟩ := split_inj hp.1 hq.1 h
  obtain ⟨hproject, hback⟩ := split_inj hp.2 hq.2 hrest
  cases p
  cases q
  simp_all [String.toList_inj]

/-- The text says what it was made of, whatever a key or a name contains. -/
theorem text_inj {a b : Origin} (ha : a.Plain) (hb : b.Plain) (h : a.text = b.text) : a = b := by
  rcases a with ⟨_ | p, planId, key⟩ | ⟨p, id⟩ <;>
    rcases b with ⟨_ | q, planId', key'⟩ | ⟨q, id'⟩ <;>
    dsimp only [Origin.text, Origin.Plain] at h ha hb <;>
    replace h := congrArg String.toList h <;>
    simp [String.toList_append] at h
  · have hkey := split_inj ha hb h
    simp_all [String.toList_inj]
  · obtain ⟨rfl, hrest⟩ := scope_inj ⟨ha.1, ha.2.1⟩ ⟨hb.1, hb.2.1⟩ h
    have hkey := split_inj ha.2.2 hb.2.2 (by simpa using hrest)
    simp_all [String.toList_inj]
  · simpa using (scope_inj ⟨ha.1, ha.2.1⟩ hb h).2
  · simpa using (scope_inj ha ⟨hb.1, hb.2.1⟩ h).2
  · obtain ⟨rfl, hrest⟩ := scope_inj ha hb h
    simp_all [String.toList_inj]

/-- A plan's id is the digest of the rest of it. -/
def Sealed (addressing : Addressing) (plan : ExecutionPlan) : Prop :=
  plan.planId = addressing.digest (addressing.json { plan with planId := "" }.toValue)

/-- **Two ids that are derived are the same exactly if they are derived from the same**: for a
key, the scope, the address of the plan and the key; for a name in a project, the project and
the name.  The address of a plan tells the definition it was compiled from.  A name without a
project is the id as it stands. -/
theorem ids_agree_iff {deriveUuid : String → String} (hinjective : Function.Injective deriveUuid)
    {plan plan' : ExecutionPlan} {scope scope' : ExecutionScope} {identity identity' : RunIdentity}
    {a b : Origin} (ha : identity.origin? plan scope = some a)
    (hb : identity'.origin? plan' scope' = some b) (hplain : a.Plain) (hplain' : b.Plain)
    (uuid uuid' : String) :
    (identity.of deriveUuid uuid plan scope = identity'.of deriveUuid uuid' plan' scope' ↔
      a = b) ∧
    (∀ addressing : Addressing, addressing.Faithful → Sealed addressing plan →
      Sealed addressing plan' → plan.planId = plan'.planId →
      plan.definitionKind = plan'.definitionKind ∧ plan.definitionName = plan'.definitionName ∧
        plan.revision = plan'.revision) ∧
    ∀ id, (RunIdentity.named id).of deriveUuid uuid plan .global = id := by
  refine ⟨?_, fun addressing haddressing hseal hseal' hid => ?_, fun _ => rfl⟩
  · rw [of_eq_text ha, of_eq_text hb, hinjective.eq_iff]
    exact ⟨text_inj hplain hplain', congrArg Origin.text⟩
  · rw [hseal, hseal'] at hid
    have hvalue := haddressing.json (haddressing.digest hid)
    simp only [ExecutionPlan.toValue, Value.object.injEq, List.cons.injEq, Prod.mk.injEq,
      Value.string.injEq] at hvalue
    refine ⟨?_, hvalue.2.1.2, hvalue.2.2.2.2.1.2⟩
    have hword := hvalue.1.2
    cases hkind : plan.definitionKind <;> cases hkind' : plan'.definitionKind <;>
      simp_all [DefinitionKind.asStr]

def nightly : ExecutionPlan := ⟨"ab", .workflow, "nightly", "1", [], []⟩

def weekly : ExecutionPlan := ⟨"abc", .workflow, "weekly", "1", [], []⟩

theorem ids_agree_iff_nightly :
    (RunIdentity.key "c/d").of id "" nightly .global ≠
      (RunIdentity.key "d").of id "" weekly .global :=
  have ha : (RunIdentity.key "c/d").origin? nightly .global = some (.keyed .global "ab" "c/d") := rfl
  have hb : (RunIdentity.key "d").origin? weekly .global = some (.keyed .global "abc" "d") := rfl
  fun h => by
    have horigin := (ids_agree_iff Function.injective_id ha hb (by simp [Origin.Plain])
      (by simp [Origin.Plain]) "" "").1.mp h
    simp at horigin

/-- A slot's id is its caller's: it does not say which definition it is of. -/
theorem named_whatever_the_definition :
    (RunIdentity.named "slot").of id "" nightly .global =
      (RunIdentity.named "slot").of id "" weekly .global ∧
      nightly.definitionName ≠ weekly.definitionName :=
  ⟨rfl, by decide⟩

end Aiwatcher.Store
