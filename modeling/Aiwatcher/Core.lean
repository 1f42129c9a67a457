import Mathlib.Data.List.Basic

/-!
# Aiwatcher.Core

The records the execution engine shares with the rest of the workspace:
JSON values, instants, artifacts, the policy of an unanswered question, the
lease rule, and the ordered map its tables are kept in.
-/

namespace Aiwatcher

/-- A `BTreeMap`: entries in ascending key order, one per key. -/
abbrev BTreeMap (κ β : Type) [Ord κ] := Std.ExtTreeMap κ β compare

/-- The values of a map, in ascending key order. -/
def BTreeMap.values {κ β : Type} [Ord κ] [Std.TransOrd κ] (m : BTreeMap κ β) : List β :=
  m.toList.map Prod.snd

theorem BTreeMap.mem_values {κ β : Type} [Ord κ] [Std.TransOrd κ] [Std.LawfulEqOrd κ]
    {m : BTreeMap κ β} {v : β} : v ∈ BTreeMap.values m ↔ ∃ k : κ, m[k]? = some v := by
  simp [BTreeMap.values, Std.ExtTreeMap.mem_toList_iff_getElem?_eq_some]

theorem BTreeMap.values_filter {κ β : Type} [Ord κ] [Std.TransOrd κ] [Std.LawfulEqOrd κ]
    {m : BTreeMap κ β} {of : β → κ} (h : ∀ (k : κ) (v : β), m[k]? = some v → of v = k)
    (keep : κ → Bool) : BTreeMap.values (m.filter fun k _ => keep k) =
      (BTreeMap.values m).filter fun v => keep (of v) := by
  simp only [BTreeMap.values, Std.ExtTreeMap.toList_filter, List.filter_map]
  congr 1
  refine List.filter_congr fun entry hentry => ?_
  have hkey := h _ _ (Std.ExtTreeMap.mem_toList_iff_getElem?_eq_some.mp hentry)
  simp [hkey]

/-! ## JSON -/

/-- `serde_json`'s number: an unsigned or a negative 64-bit integer, or the
bits of a double. -/
inductive Number where
  | posInt (n : UInt64)
  | negInt (n : Int64)
  | float (bits : UInt64)
  deriving DecidableEq, Repr

/-- `serde_json::Value`. -/
inductive Value where
  | null
  | bool (b : Bool)
  | number (n : Number)
  | string (s : String)
  | array (items : List Value)
  | object (entries : List (String × Value))

/-- The text of a string value. -/
def Value.asStr : Value → Option String
  | .string s => some s
  | _ => none

/-- One entry of an object. -/
def Value.get (value : Value) (key : String) : Option Value :=
  match value with
  | .object entries => (entries.find? fun entry => entry.1 == key).map Prod.snd
  | _ => none

/-- A number that is an unsigned 64-bit integer. -/
def Value.asU64 : Value → Option UInt64
  | .number (.posInt n) => some n
  | _ => none

/-! ## Time -/

/-- An instant, in nanoseconds since the Unix epoch. -/
abbrev OffsetDateTime := Int

/-- A signed span of time, in nanoseconds. -/
abbrev Duration := Int

def OffsetDateTime.unixEpoch : OffsetDateTime := 0

/-- `time::Duration::seconds`. -/
def Duration.seconds (n : Int) : Duration := n * 1000000000

/-- `time::Duration::try_from` of a span of whole seconds, `ZERO` where it does
not fit. -/
def Duration.ofSecsOrZero (n : UInt64) : Duration :=
  if n.toNat ≤ Int64.maxValue.toInt.toNat then Duration.seconds n.toNat else 0

/-! ## Leases -/

def leaseSeconds : Int := 300

/-- Whether nobody is demonstrably working on this right now: no claim at all,
or one older than the lease. -/
def leaseExpired (claimedAt : Option OffsetDateTime) (now : OffsetDateTime) : Bool :=
  match claimedAt with
  | none => true
  | some at' => decide (Duration.seconds leaseSeconds < now - at')

/-! ## Artifacts -/

inductive ArtifactKind where
  | rows | code | preview | log | model | report | blob
  deriving DecidableEq, Repr

/-- One file, addressed by what is in it. -/
structure ArtifactRef where
  name : String
  uri : String
  digest : String
  sizeBytes : Option UInt64
  contentType : String
  kind : ArtifactKind
  schemaRef : Option String
  deriving DecidableEq, Repr

/-! ## Questions -/

/-- What happens to a step whose question nobody answered in time. -/
inductive OnTimeout where
  | fail
  | skip
  | answer (response : Value)

end Aiwatcher
