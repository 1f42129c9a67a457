import Aiwatcher.Bus.Tailed
import Aiwatcher.Bus.Whole

/-!
# Aiwatcher.Bus.Followed

What the subscribers of both logs are handed, whoever appends meanwhile (`no_gap_no_duplicate`);
and what one misses for good when two writers publish in the other order (`published_behind`).
-/

namespace Aiwatcher.Bus

open Library

variable {codec : RecordCodec LogRecord}

instance (before : Feed Log SubscribeOptions Backlog LogRecord)
    (act : FeedAct Append SubscribeOptions) :
    Decidable (Orderly memorySource (fun _ _ => True) before act) := by
  cases act <;> unfold Orderly <;> infer_instance

instance (log : WalLog) (step : WalStep) : Decidable (log.Spared step) := by
  cases step <;> unfold WalLog.Spared <;> infer_instance

instance (before : Feed WalLog SubscribeOptions WalReplay LogRecord)
    (act : FeedAct WalStep SubscribeOptions) :
    Decidable (Orderly (walSource codec) WalLog.Spared before act) := by
  cases act <;> unfold Orderly <;> infer_instance

/-- A log in memory that is new, and one in a file that may hold records. -/
theorem no_gap_no_duplicate (codec : RecordCodec LogRecord) (hcodec : codec.Faithful) :
    (∀ acts, (∀ st ∈ (feeding memorySource BROADCAST_CAPACITY).run { log := {} } acts,
        Orderly memorySource (fun _ _ => True) st.before st.input) →
      ∀ st ∈ (feeding memorySource BROADCAST_CAPACITY).run { log := {} } acts,
        ∀ subscription ∈ st.after.subscription, FeedLaw memorySource st.after subscription) ∧
    ∀ wal records, Indexed codec wal records → ∀ acts,
      (∀ st ∈ (feeding (walSource codec) BROADCAST_CAPACITY).run
          { log := { wal }, live := records } acts,
        Orderly (walSource codec) WalLog.Spared st.before st.input) →
      ∀ st ∈ (feeding (walSource codec) BROADCAST_CAPACITY).run
          { log := { wal }, live := records } acts,
        ∀ subscription ∈ st.after.subscription,
          FeedLaw (walSource codec) st.after subscription := by
  have hnew : memoryInvariant.Inv {} := by simp [memoryInvariant, Contiguous]
  refine ⟨feed_law memoryInvariant hnew (Nat.le_refl _) BROADCAST_CAPACITY,
    fun wal records hindexed => ?_⟩
  have hkept : WalLog.Kept codec { wal } records := ⟨hindexed.filed, by simp⟩
  have hrecords := (hkept.reads hcodec).settled rfl
  have hsent : ((walSource codec).records { wal }).length ≤
      (walInvariant codec hcodec).committed { wal } := by
    show (WalLog.records codec { wal }).length ≤ wal.head
    rw [hrecords, hindexed.filed.head]
  have hlaw := feed_law (walInvariant codec hcodec) ⟨records, hkept⟩ hsent BROADCAST_CAPACITY
  rwa [show (walSource codec).records { wal } = records from hrecords] at hlaw

/-! ## One run of each -/

/-- A run starts, a subscription opens, the run starts again, and all is handed over. -/
def memoryTail : List (FeedAct Append SubscribeOptions) :=
  [.act ⟨[started], second⟩, .subscribe { «from» := .beginning }, .publish 0, .opens, .replay,
    .act ⟨[started], second⟩, .replay, .publish 1, .receive, .receive]

def walTail : List (FeedAct WalStep SubscribeOptions) :=
  [.act (.begins ⟨[started], second⟩), .act (.lands 100), .act .finishes,
    .subscribe { «from» := .beginning }, .publish 0, .opens, .replay, .replay, .replay, .replay,
    .replay, .act (.begins ⟨[started], second⟩), .act .finishes, .publish 1, .receive, .receive]

theorem no_gap_no_duplicate_started :
    (∀ st ∈ (feeding memorySource BROADCAST_CAPACITY).run { log := {} } memoryTail,
        ∀ subscription ∈ st.after.subscription, FeedLaw memorySource st.after subscription) ∧
      (∀ st ∈ (feeding (walSource startedJson) BROADCAST_CAPACITY).run
          { log := { wal := {} }, live := [] } walTail,
        ∀ subscription ∈ st.after.subscription,
          FeedLaw (walSource startedJson) st.after subscription) ∧
      ((feeding (walSource startedJson) BROADCAST_CAPACITY).last
          { log := { wal := {} }, live := [] } walTail).subscription.map (·.handed) =
        some [.event (started.record 1 1 second), .caughtUp 1,
          .event (started.record 2 2 second)] :=
  ⟨(no_gap_no_duplicate startedJson faithful_startedJson).1 memoryTail (by decide +kernel),
    (no_gap_no_duplicate startedJson faithful_startedJson).2 {} []
      ⟨rfl, by simp, Numbered.nil, {}, rfl, Places.nil, Counts.nil⟩ walTail (by decide +kernel),
    by decide +kernel⟩

/-- Two appends, of which the later is published first. -/
def crossing : List (FeedAct Append SubscribeOptions) :=
  [.subscribe { «from» := .beginning }, .opens, .replay, .act ⟨[started], second⟩,
    .act ⟨[started], second⟩, .publish 1, .publish 0, .receive, .receive]

/-- The event at position 1 is never handed over. -/
theorem published_behind :
    ¬ ∀ st ∈ (feeding memorySource BROADCAST_CAPACITY).run { log := {} } crossing,
      ∀ subscription ∈ st.after.subscription, FeedLaw memorySource st.after subscription := by
  intro h
  have hfirst : ∀ st ∈ (feeding memorySource BROADCAST_CAPACITY).run { log := {} } crossing,
      ∀ subscription ∈ st.after.subscription, subscription.events <+:
        memorySource.due st.after.log subscription.options subscription.start :=
    fun st hst subscription hmem => (h st hst subscription hmem).first
  exact absurd hfirst (by decide +kernel)

end Aiwatcher.Bus
