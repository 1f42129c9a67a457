import Aiwatcher.Conversations.Archive
import Mathlib.Algebra.Group.Pi.Basic

/-!
# Aiwatcher.Conversations.Counted

The numbers of a conversation's head, and what its turns come to (`Counted`): moving the numbers
from what a turn was to what it is keeps the one equal to the other.
-/

namespace Aiwatcher.Conversations

open Library Option Table Std ConversationHead

/-! ## Numbers -/

/-- What a conversation's head counts. -/
inductive Counter where
  | turns
  | pending
  | approved
  | rejected
  | erased
  | finding (kind : String)
  deriving DecidableEq

def ConversationHead.numbers (head : ConversationHead) : Counter → Nat
  | .turns => head.turns
  | .pending => head.pending
  | .approved => head.approved
  | .rejected => head.rejected
  | .erased => head.erased
  | .finding kind => head.findings[kind]?.getD 0

/-- What a stored turn adds to each number. -/
def ArchivedTurn.worth (turn : ArchivedTurn) : Counter → Nat
  | .turns => 1
  | .pending => if turn.review.state = .pending then 1 else 0
  | .approved => if turn.review.state = .approved then 1 else 0
  | .rejected => if turn.review.state = .rejected then 1 else 0
  | .erased => if turn.state = .erased then 1 else 0
  | .finding kind => turn.findings.countP fun finding => finding.kind.asStr = kind

/-- The stored turns, counted. -/
def fold (turns : BTreeMap String ArchivedTurn) : Counter → Nat :=
  Table.tally (fun _ turn => turn.worth) turns

/-- The head's numbers are those of the stored turns, and no kind without a finding is named. -/
structure Counted (head : ConversationHead) (turns : BTreeMap String ArchivedTurn) : Prop where
  numbers : head.numbers = fold turns
  found : ∀ (kind : String) count, head.findings[kind]? = some count → 0 < count

/-! ## Moving them -/

variable (findings : List Finding)

variable (counts : BTreeMap String Nat)

variable (kind : String)

theorem getD_foldl_entry :
    ((findings.foldl (fun findings finding =>
      Table.entry findings finding.kind.asStr 0 (· + 1)) counts)[kind]?).getD 0 =
        counts[kind]?.getD 0 + findings.countP fun finding => finding.kind.asStr = kind := by
  induction findings generalizing counts with
  | nil => rfl
  | cons finding findings ih =>
    rw [List.foldl_cons, ih, getElem?_entry, List.countP_cons]
    by_cases h : finding.kind.asStr = kind
    · simp [h]
      omega
    · simp [h]

theorem pos_foldl_entry {counts : BTreeMap String Nat}
    (h : ∀ (kind : String) count, counts[kind]? = some count → 0 < count)
    (kind : String) (count : Nat)
    (hcount : (findings.foldl (fun findings finding =>
      Table.entry findings finding.kind.asStr 0 (· + 1)) counts)[kind]? = some count) :
    0 < count := by
  induction findings generalizing counts with
  | nil => exact h kind count hcount
  | cons finding findings ih =>
    refine ih (fun other held hheld => ?_) hcount
    rw [getElem?_entry] at hheld
    split at hheld
    · rw [← some.inj hheld]
      exact Nat.succ_pos _
    · exact h other held hheld

theorem getD_foldl_modify :
    ((findings.foldl (fun findings finding =>
      findings.modify finding.kind.asStr (· - 1)) counts)[kind]?).getD 0 =
        counts[kind]?.getD 0 - findings.countP fun finding => finding.kind.asStr = kind := by
  induction findings generalizing counts with
  | nil => rfl
  | cons finding findings ih =>
    rw [List.foldl_cons, ih, Table.getElem?_modify, List.countP_cons]
    by_cases h : finding.kind.asStr = kind
    · cases counts[kind]? with
      | none => simp [h]
      | some count =>
        simp [h]
        omega
    · simp [h]

theorem getElem?_filter_pos :
    (counts.filter fun _ count => 0 < count)[kind]? = counts[kind]?.filter (0 < ·) := by
  rw [ExtTreeMap.getElem?_filter']

namespace ConversationHead

variable {head : ConversationHead} {turn previous next : ArchivedTurn}

theorem findings_increment : (head.increment turn).findings =
    turn.findings.foldl (fun findings finding =>
      Table.entry findings finding.kind.asStr 0 (· + 1)) head.findings := by
  unfold increment
  cases turn.review.state <;> by_cases h : turn.state = .erased <;> simp [h]

theorem findings_decrement : (head.decrement turn).findings =
    (turn.findings.foldl (fun findings finding =>
      findings.modify finding.kind.asStr (· - 1)) head.findings).filter
        fun _ count => 0 < count := by
  unfold decrement
  cases turn.review.state <;> by_cases h : turn.state = .erased <;> simp [h]

theorem turns_increment : (head.increment turn).turns = head.turns := by
  unfold increment
  cases turn.review.state <;> by_cases h : turn.state = .erased <;> simp [h]

theorem turns_decrement : (head.decrement turn).turns = head.turns := by
  unfold decrement
  cases turn.review.state <;> by_cases h : turn.state = .erased <;> simp [h]

theorem numbers_increment (head : ConversationHead) (turn : ArchivedTurn) (counter : Counter) :
    ({ head with turns := head.turns + 1 }.increment turn).numbers counter =
      head.numbers counter + turn.worth counter := by
  cases counter with
  | turns => exact turns_increment
  | finding kind =>
    rw [numbers, findings_increment]
    exact getD_foldl_entry _ _ _
  | pending | approved | rejected | erased =>
    unfold increment
    cases hreview : turn.review.state <;> by_cases h : turn.state = .erased <;>
      simp [h, hreview, numbers, ArchivedTurn.worth]

theorem numbers_decrement (head : ConversationHead) (turn : ArchivedTurn) (counter : Counter) :
    ({ head with turns := head.turns - 1 }.decrement turn).numbers counter =
      head.numbers counter - turn.worth counter := by
  cases counter with
  | turns => exact turns_decrement
  | finding kind =>
    rw [numbers, findings_decrement, getElem?_filter_pos]
    refine Eq.trans ?_ (getD_foldl_modify turn.findings head.findings kind)
    cases (turn.findings.foldl (fun findings finding =>
        findings.modify finding.kind.asStr (· - 1)) head.findings)[kind]? with
    | none => rfl
    | some count => cases count <;> simp [Option.filter]
  | pending | approved | rejected | erased =>
    unfold decrement
    cases hreview : turn.review.state <;> by_cases h : turn.state = .erased <;>
      simp [h, hreview, numbers, ArchivedTurn.worth]

theorem found_increment (h : ∀ (kind : String) count, head.findings[kind]? = some count → 0 < count)
    (kind : String) (count : Nat) (hcount : (head.increment turn).findings[kind]? = some count) :
    0 < count := by
  rw [findings_increment] at hcount
  exact pos_foldl_entry _ h kind count hcount

theorem found_decrement (kind : String) (count : Nat)
    (hcount : (head.decrement turn).findings[kind]? = some count) : 0 < count := by
  rw [findings_decrement, getElem?_filter_pos, filter_eq_some_iff] at hcount
  simpa using hcount.2

/-- What a head says besides its counts. -/
structure Alike (head other : ConversationHead) : Prop where
  conversationId : other.conversationId = head.conversationId
  shards : other.shards = head.shards
  lastSeen : other.lastSeen = head.lastSeen
  earliestExpiry : other.earliestExpiry = head.earliestExpiry

theorem alike_increment (head : ConversationHead) (turn : ArchivedTurn) :
    Alike head (head.increment turn) := by
  unfold increment
  cases turn.review.state <;> by_cases h : turn.state = .erased <;> constructor <;> simp [h]

theorem alike_decrement (head : ConversationHead) (turn : ArchivedTurn) :
    Alike head (head.decrement turn) := by
  unfold decrement
  cases turn.review.state <;> by_cases h : turn.state = .erased <;> constructor <;> simp [h]

theorem alike_applyCounts (head : ConversationHead) (previous : Option ArchivedTurn)
    (next : ArchivedTurn) : Alike head (head.applyCounts previous (some next)) := by
  cases previous with
  | none =>
    obtain ⟨hid, hshards, hseen, hexpiry⟩ :=
      alike_increment { head with turns := head.turns + 1 } next
    exact ⟨hid, hshards, hseen, hexpiry⟩
  | some previous =>
    obtain ⟨hid, hshards, hseen, hexpiry⟩ :=
      alike_decrement { head with turns := head.turns - 1 } previous
    obtain ⟨hid', hshards', hseen', hexpiry'⟩ := alike_increment
      { ({ head with turns := head.turns - 1 } : ConversationHead).decrement previous with
        turns := (({ head with turns := head.turns - 1 } : ConversationHead).decrement
          previous).turns + 1 } next
    exact ⟨hid'.trans hid, hshards'.trans hshards, hseen'.trans hseen, hexpiry'.trans hexpiry⟩

end ConversationHead

/-! ## Keeping them -/

namespace Counted

variable {head : ConversationHead} {turns : BTreeMap String ArchivedTurn}

theorem changed (h : Counted head turns) {turnId : String} {previous : ArchivedTurn}
    (hprevious : turns[turnId]? = some previous) (next : ArchivedTurn) :
    Counted (head.applyCounts (some previous) (some next)) (turns.insert turnId next) where
  numbers := by
    funext counter
    have hfold : head.numbers counter =
        previous.worth counter + fold (turns.erase turnId) counter := by
      rw [h.numbers, fold, tally_eq_add hprevious]
      rfl
    have hnext : fold (turns.insert turnId next) counter =
        next.worth counter + fold (turns.erase turnId) counter := by
      rw [fold, tally_insert]
      rfl
    simp only [applyCounts, elim_some]
    rw [numbers_increment, numbers_decrement, hfold, hnext]
    omega
  found := found_increment found_decrement

theorem added (h : Counted head turns) {turnId : String} (hnew : turns[turnId]? = none)
    (next : ArchivedTurn) :
    Counted (head.applyCounts none (some next)) (turns.insert turnId next) where
  numbers := by
    funext counter
    simp only [applyCounts, elim_none, elim_some]
    rw [numbers_increment, h.numbers, fold, fold, tally_insert_of_none hnew, Nat.add_comm]
    rfl
  found := found_increment h.found

theorem opening (conversationId : String) (receivedAt : OffsetDateTime) :
    Counted (.opening conversationId receivedAt) ∅ where
  numbers := by
    funext counter
    rw [fold, tally_empty]
    cases counter <;> simp [ConversationHead.numbers, ConversationHead.opening]
  found := by simp [ConversationHead.opening]

/-- Nothing is taken away for a turn that was never counted, where none was. -/
theorem uncounted (h : Counted head turns) {previous : Option ArchivedTurn}
    (hprevious : previous = none ∨ turns = ∅) (next : ArchivedTurn) :
    (head.applyCounts previous (some next)).numbers =
        (head.applyCounts none (some next)).numbers ∧
      (head.applyCounts previous (some next)).findings =
        (head.applyCounts none (some next)).findings := by
  cases previous with
  | none => exact ⟨rfl, rfl⟩
  | some previous =>
    obtain rfl := hprevious.resolve_left nofun
    have hzero : ∀ counter, head.numbers counter = 0 := fun counter => by
      rw [h.numbers, fold, tally_empty]
      rfl
    have hempty : ({ head with turns := head.turns - 1 }.decrement previous).findings =
        head.findings := by
      refine ExtTreeMap.ext_getElem? fun kind => ?_
      have hkind := hzero (.finding kind)
      have hless := numbers_decrement head previous (.finding kind)
      rw [hkind, Nat.zero_sub] at hless
      have hnone : ∀ counts : BTreeMap String Nat, counts[kind]?.getD 0 = 0 →
          (∀ count, counts[kind]? = some count → 0 < count) → counts[kind]? = none := by
        intro counts hnumber hpos
        cases hsome : counts[kind]? with
        | none => rfl
        | some count =>
          rw [hsome, getD_some] at hnumber
          exact absurd (hpos count hsome) (by omega)
      rw [hnone _ hkind (h.found kind), hnone _ hless (found_decrement kind)]
    refine ⟨funext fun counter => ?_, ?_⟩
    · simp only [applyCounts, elim_some, elim_none]
      rw [numbers_increment, numbers_decrement, numbers_increment, hzero, Nat.zero_sub]
    · simp only [applyCounts, elim_some, elim_none]
      rw [findings_increment, findings_increment, hempty]

theorem congr (h : Counted head turns) {other : ConversationHead}
    (hnumbers : other.numbers = head.numbers) (hfindings : other.findings = head.findings) :
    Counted other turns :=
  ⟨hnumbers.trans h.numbers, by rw [hfindings]; exact h.found⟩

end Counted

end Aiwatcher.Conversations
