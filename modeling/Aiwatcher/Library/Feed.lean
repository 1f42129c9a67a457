import Aiwatcher.Library.Machine

/-!
# Aiwatcher.Library.Feed

A log that several writers append to and then publish what they appended, and a subscription that
replays the log from a position and then follows the broadcast, past what it was handed.

* `LogSource` — what a log does with an append and a replay; `feeding` — the machine over one;
* `LogSource.Invariant` — what is to be shown of a source;
* `feed_law` — where events are published in the order of their positions, a subscription is
  handed the events behind its start, in order and without a gap.
-/

namespace Aiwatcher.Library

open List Option

/-! ## Sources -/

/-- What a receiver of a broadcast finds at its place. -/
inductive Received (ε : Type) where
  | lagged
  | empty
  | event (event : ε)

/-- The channel keeps the last `capacity` of what was sent. -/
def recv {ε : Type} (capacity : Nat) (sent : List ε) (next : Nat) : Received ε :=
  if capacity < sent.length - next then .lagged
  else sent[next]?.elim .empty .event

/-- What a subscriber is handed. -/
inductive Handed (ε : Type) where
  | event (event : ε)
  | caughtUp (position : Nat)
  deriving DecidableEq

def Handed.event? {ε : Type} : Handed ε → Option ε
  | .event handed => some handed
  | .caughtUp _ => none

/-- What one step of a replay hands over, and what is left of the replay: where nothing is, the
broadcast is followed. -/
structure Onward (Replay ε : Type) where
  handed : Option (Handed ε) := none
  delivered : Nat
  replay : Option Replay

inductive Replayed (Replay ε : Type) where
  | waits
  | fails
  | goes (onward : Onward Replay ε)

/-- A log.  Its acts may leave batches to publish. -/
structure LogSource (Log Act Options Replay ε : Type) where
  position : ε → Nat
  records : Log → List ε
  act : Log → Act → Option (Log × List (List ε))
  wanted : Options → ε → Bool
  /-- Where a subscription starts, and its replay. -/
  opens : Log → Options → Option (Nat × Replay)
  replay : Log → Options → Nat → Replay → Replayed Replay ε
  /-- Whether a published event that is not wanted moves the subscription. -/
  marksAll : Bool

inductive Stage (Replay : Type) where
  | tapped
  | replaying (replay : Replay)
  | live
  | ended
  deriving DecidableEq

/-- A subscription: its place in the broadcast, the position it was handed, and what it was
handed. -/
structure Subscription (Options Replay ε : Type) where
  options : Options
  start : Nat := 0
  next : Nat
  delivered : Nat := 0
  stage : Stage Replay := .tapped
  handed : List (Handed ε) := []

def Subscription.events {Options Replay ε : Type} (subscription : Subscription Options Replay ε) :
    List ε :=
  subscription.handed.filterMap Handed.event?

structure Feed (Log Options Replay ε : Type) where
  log : Log
  /-- What each append has yet to publish. -/
  pending : List (List ε) := []
  live : List ε := []
  subscription : Option (Subscription Options Replay ε) := none

inductive FeedAct (Act Options : Type) where
  | act (act : Act)
  | publish (append : Nat)
  | subscribe (options : Options)
  | opens
  | replay
  | receive
  | leave

variable {Log Act Options Replay ε : Type}

namespace Subscription

/-- One step of a replay. -/
def replayed (subscription : Subscription Options Replay ε) (onward : Onward Replay ε) :
    Subscription Options Replay ε :=
  { subscription with
    delivered := onward.delivered
    stage := onward.replay.elim .live .replaying
    handed := subscription.handed ++ onward.handed.toList }

/-- One event off the broadcast. -/
def follow (source : LogSource Log Act Options Replay ε)
    (subscription : Subscription Options Replay ε) (event : ε) : Subscription Options Replay ε :=
  let subscription := { subscription with next := subscription.next + 1 }
  if source.position event ≤ subscription.delivered then subscription
  else if source.wanted subscription.options event then
    { subscription with
      delivered := source.position event
      handed := subscription.handed ++ [.event event] }
  else if source.marksAll then { subscription with delivered := source.position event }
  else subscription

end Subscription

def feeding (source : LogSource Log Act Options Replay ε) (capacity : Nat) :
    Machine (Feed Log Options Replay ε) (FeedAct Act Options) Unit where
  step feed
    | .act act =>
      (source.act feed.log act).map fun (log, batches) =>
        ([], { feed with log, pending := feed.pending ++ batches })
    | .publish append =>
      match feed.pending[append]? with
      | some (event :: events) =>
        some ([], { feed with
          live := feed.live ++ [event], pending := feed.pending.set append events })
      | _ => none
    | .subscribe options =>
      if feed.subscription.all (·.stage matches .ended) then
        some ([], { feed with subscription := some { options, next := feed.live.length } })
      else none
    | .opens => do
        let subscription ← feed.subscription
        match subscription.stage with
        | .tapped =>
          let (start, replay) ← source.opens feed.log subscription.options
          some ([], { feed with subscription := some { subscription with
            start, delivered := start, stage := .replaying replay } })
        | _ => none
    | .replay => do
        let subscription ← feed.subscription
        match subscription.stage with
        | .replaying replay =>
          match source.replay feed.log subscription.options subscription.delivered replay with
          | .waits => none
          | .fails =>
            some ([], { feed with subscription := some { subscription with stage := .ended } })
          | .goes onward =>
            some ([], { feed with subscription := some (subscription.replayed onward) })
        | _ => none
    | .receive => do
        let subscription ← feed.subscription
        match subscription.stage with
        | .live =>
          match recv capacity feed.live subscription.next with
          | .empty => none
          | .lagged =>
            some ([], { feed with subscription := some { subscription with stage := .ended } })
          | .event event =>
            some ([], { feed with subscription := some (subscription.follow source event) })
        | _ => none
    | .leave => do
        let subscription ← feed.subscription
        some ([], { feed with subscription := some { subscription with stage := .ended } })

/-! ## The law -/

/-- The events a subscription is due, of those the log holds. -/
def LogSource.due (source : LogSource Log Act Options Replay ε) (log : Log) (options : Options)
    (start : Nat) : List ε :=
  (source.records log).filter fun event =>
    start < source.position event && source.wanted options event

/-- What a subscription was handed: the first of what it is due; and all of it, where it follows
the broadcast, has taken all that was sent, and all of the log was sent. -/
structure FeedLaw (source : LogSource Log Act Options Replay ε) (feed : Feed Log Options Replay ε)
    (subscription : Subscription Options Replay ε) : Prop where
  first : subscription.events <+:
    source.due feed.log subscription.options subscription.start
  all : subscription.stage = .live → subscription.next = feed.live.length →
    feed.live.length = (source.records feed.log).length →
      subscription.events = source.due feed.log subscription.options subscription.start

/-- An event is published when all events at lower positions have been. -/
def Orderly (source : LogSource Log Act Options Replay ε) (Spared : Log → Act → Prop)
    (before : Feed Log Options Replay ε) : FeedAct Act Options → Prop
  | .act act => Spared before.log act
  | .publish append => ∀ event ∈ before.pending[append]?.bind List.head?,
      source.position event = before.live.length + 1
  | _ => True

/-! ## What lies between two positions -/

/-- Positions count the records. -/
def Contiguous (position : ε → Nat) (log : List ε) : Prop :=
  ∀ i event, log[i]? = some event → position event = i + 1

/-- The events behind one position, up to another. -/
def between (log : List ε) (start upTo : Nat) : List ε := (log.take upTo).drop start

section Between

variable {log more : List ε} {start upTo : Nat}

theorem between_prefix_drop (log : List ε) (start upTo : Nat) :
    between log start upTo <+: log.drop start := by
  rw [between, drop_take]
  exact take_prefix _ _

theorem between_append (h : upTo ≤ log.length) :
    between (log ++ more) start upTo = between log start upTo := by
  rw [between, between, take_append_of_le_length h]

theorem between_of_le (h : upTo ≤ start) : between log start upTo = [] := by
  rw [between, drop_eq_nil_iff, length_take]
  omega

theorem between_of_length_le (h : log.length ≤ upTo) : between log start upTo = log.drop start := by
  rw [between, take_of_length_le h]

theorem between_succ {event : ε} (h : log[upTo]? = some event) (hstart : start ≤ upTo) :
    between log start (upTo + 1) = between log start upTo ++ [event] := by
  have hlt : upTo < log.length := (List.getElem?_eq_some_iff.mp h).1
  rw [between, take_add_one, h, toList_some, drop_append_of_le_length]
  · rfl
  · rw [length_take]
    omega

theorem getElem?_of_mem_contiguous {position : ε → Nat} (h : Contiguous position log) {event : ε}
    (hmem : event ∈ log) {i : Nat} (hi : position event = i + 1) : log[i]? = some event := by
  obtain ⟨j, hj⟩ := getElem?_of_mem hmem
  have hposition := h j event hj
  have heq : j = i := by omega
  rwa [heq] at hj

theorem due_eq_filter {position : ε → Nat} (h : Contiguous position log) (wanted : ε → Bool)
    (start : Nat) : (log.filter fun event => start < position event && wanted event) =
      (log.drop start).filter wanted := by
  have hbase : ∀ (records : List ε) (base : Nat),
      (∀ i event, records[i]? = some event → position event = base + i + 1) →
        (records.filter fun event => start < position event && wanted event) =
          (records.drop (start - base)).filter wanted := by
    intro records
    induction records with
    | nil => simp
    | cons event records ih =>
      intro base hpositions
      have hfirst : position event = base + 0 + 1 := hpositions 0 event rfl
      have hrest := ih (base + 1) fun i other hother => by
        rw [hpositions (i + 1) other hother]
        omega
      rw [filter_cons, hrest, hfirst]
      by_cases hlt : start < base + 1
      · have hzero : start - base = 0 := by omega
        have hzero' : start - (base + 1) = 0 := by omega
        simp [hlt, hzero, hzero', filter_cons]
      · have hsucc : start - base = (start - (base + 1)) + 1 := by omega
        simp [hlt, hsucc]
  simpa using hbase log 0 (by simpa [Contiguous] using h)

end Between

/-! ## Following the broadcast -/

/-- A subscription that follows the broadcast: it was handed what is wanted up to the greater of
where its replay ended and its place, and nothing it would still drop up to there is wanted. -/
structure Following (source : LogSource Log Act Options Replay ε) (log : Log)
    (subscription : Subscription Options Replay ε) (base : Nat) : Prop where
  events : subscription.events = (between (source.records log) subscription.start
    (max base subscription.next)).filter (source.wanted subscription.options)
  covered : max base subscription.next ≤ (source.records log).length
  after : subscription.start ≤ subscription.delivered
  bound : subscription.delivered ≤ max subscription.start (max base subscription.next)
  quiet : ∀ event ∈ source.records log, subscription.delivered < source.position event →
    source.position event ≤ max base subscription.next →
      source.wanted subscription.options event = false

variable {source : LogSource Log Act Options Replay ε} {log log' : Log}
  {subscription : Subscription Options Replay ε} {base : Nat}

theorem Following.grows (h : Following source log subscription base)
    (hcontiguous : Contiguous source.position (source.records log'))
    (hgrows : source.records log <+: source.records log') :
    Following source log' subscription base := by
  obtain ⟨more, hmore⟩ := hgrows
  refine ⟨?_, ?_, h.after, h.bound, fun event hmem hlow hhigh => ?_⟩
  · rw [h.events, ← hmore, between_append h.covered]
  · rw [← hmore, length_append]
    exact Nat.le_add_right_of_le h.covered
  · have hcovered := h.covered
    have hget := getElem?_of_mem_contiguous hcontiguous hmem
      (Nat.sub_add_cancel (show 1 ≤ source.position event by omega)).symm
    rw [← hmore, getElem?_append_left (by omega)] at hget
    exact h.quiet event (List.mem_of_getElem? hget) hlow hhigh

theorem Following.follow (h : Following source log subscription base)
    (hcontiguous : Contiguous source.position (source.records log)) {event : ε}
    (hevent : (source.records log)[subscription.next]? = some event) :
    Following source log (subscription.follow source event) base := by
  have hposition := hcontiguous subscription.next event hevent
  have hlength := (List.getElem?_eq_some_iff.mp hevent).1
  have hmem := List.mem_of_getElem? hevent
  obtain ⟨hevents, hcovered, hafter, hbound, hquiet⟩ := h
  have hgrown : max base (subscription.next + 1) ≤ (source.records log).length := by omega
  -- one position further, or none where the replay had reached it
  have hstep : ∀ {start : Nat}, start ≤ subscription.next →
      max base subscription.next = subscription.next →
        between (source.records log) start (max base (subscription.next + 1)) =
          between (source.records log) start (max base subscription.next) ++ [event] := by
    intro start hstart hmax
    have hmax' : max base (subscription.next + 1) = subscription.next + 1 := by omega
    rw [hmax, hmax', between_succ hevent hstart]
  unfold Subscription.follow
  dsimp only
  split
  · rename_i hold
    have hsame : between (source.records log) subscription.start
        (max base (subscription.next + 1)) =
          between (source.records log) subscription.start (max base subscription.next) := by
      by_cases hmax : max base (subscription.next + 1) = max base subscription.next
      · rw [hmax]
      · rw [between_of_le (by omega), between_of_le (by omega)]
    refine ⟨?_, hgrown, hafter, by dsimp only; omega, fun other hother hlow hhigh =>
      hquiet other hother hlow ?_⟩
    · exact hevents.trans (by rw [hsame])
    · dsimp only at hlow hhigh
      omega
  · rename_i hnew
    split
    · rename_i hwanted
      have hbeyond : max base subscription.next = subscription.next := by
        by_contra hne
        have hquiet' := hquiet event hmem (by omega) (by omega)
        rw [hwanted] at hquiet'
        cases hquiet'
      refine ⟨?_, hgrown, by dsimp only; omega, by dsimp only; omega,
        fun other hother hlow hhigh => ?_⟩
      · dsimp only [Subscription.events] at hevents ⊢
        rw [hstep (by omega) hbeyond, filterMap_append, hevents, filter_append]
        simp [Handed.event?, hwanted]
      · dsimp only at hlow hhigh
        omega
    · rename_i hunwanted
      rw [Bool.not_eq_true] at hunwanted
      have hevents' : subscription.events = (between (source.records log) subscription.start
          (max base (subscription.next + 1))).filter (source.wanted subscription.options) := by
        by_cases hbeyond : max base subscription.next = subscription.next
        · rw [hstep (by omega) hbeyond, filter_append, hevents]
          simp [hunwanted]
        · have hmax : max base (subscription.next + 1) = max base subscription.next := by omega
          rw [hmax, hevents]
      have hquiet' : ∀ other ∈ source.records log, subscription.delivered < source.position other →
          source.position other ≤ max base (subscription.next + 1) →
            source.wanted subscription.options other = false := by
        intro other hother hlow hhigh
        by_cases hlast : source.position other ≤ max base subscription.next
        · exact hquiet other hother hlow hlast
        · have hget := getElem?_of_mem_contiguous hcontiguous hother
            (show source.position other = subscription.next + 1 by omega)
          rw [hevent] at hget
          cases hget
          exact hunwanted
      split
      · refine ⟨hevents', hgrown, by dsimp only; omega, by dsimp only; omega,
          fun other hother hlow hhigh => hquiet' other hother ?_ hhigh⟩
        dsimp only at hlow
        omega
      · exact ⟨hevents', hgrown, hafter, by dsimp only; omega, hquiet'⟩

/-! ## Invariants -/

/-- What is to be shown of a source: that its acts keep its records' positions, and what holds of
its replays until they end. -/
structure LogSource.Invariant (source : LogSource Log Act Options Replay ε)
    (Spared : Log → Act → Prop) where
  Inv : Log → Prop
  /-- How far what may be published reaches. -/
  committed : Log → Nat
  Replays : Log → Subscription Options Replay ε → Replay → Prop
  contiguous : ∀ {log}, Inv log → Contiguous source.position (source.records log)
  committed_le : ∀ {log}, Inv log → committed log ≤ (source.records log).length
  act : ∀ {log act log' batches}, Inv log → Spared log act →
    source.act log act = some (log', batches) →
      Inv log' ∧ source.records log <+: source.records log' ∧ committed log ≤ committed log' ∧
        ∀ batch ∈ batches, ∀ event ∈ batch,
          event ∈ source.records log' ∧ source.position event ≤ committed log'
  opens : ∀ {log} {subscription : Subscription Options Replay ε} {start replay}, Inv log →
    subscription.events = [] → subscription.next ≤ committed log →
      source.opens log subscription.options = some (start, replay) →
        Replays log { subscription with start, delivered := start, stage := .replaying replay }
          replay
  grows : ∀ {log log' act batches} {subscription : Subscription Options Replay ε} {replay},
    Inv log → Spared log act →
    source.act log act = some (log', batches) → Replays log subscription replay →
      Replays log' subscription replay
  goes : ∀ {log} {subscription : Subscription Options Replay ε} {replay onward}, Inv log →
    Replays log subscription replay →
    subscription.next ≤ committed log →
      source.replay log subscription.options subscription.delivered replay = .goes onward →
        (∀ rest, onward.replay = some rest → Replays log (subscription.replayed onward) rest) ∧
        (onward.replay = none → ∃ base, Following source log (subscription.replayed onward) base)
  first : ∀ {log} {subscription : Subscription Options Replay ε} {replay}, Inv log →
    Replays log subscription replay →
    subscription.events <+: source.due log subscription.options subscription.start

variable {Spared : Log → Act → Prop}

/-- A subscription, by its stage. -/
def LogSource.Invariant.Holds (invariant : source.Invariant Spared) (log : Log)
    (subscription : Subscription Options Replay ε) : Prop :=
  match subscription.stage with
  | .tapped => subscription.events = []
  | .replaying replay => invariant.Replays log subscription replay
  | .live => ∃ base, Following source log subscription base
  | .ended => subscription.events <+:
      source.due log subscription.options subscription.start

/-- What holds of a feed in any run. -/
structure Fed (invariant : source.Invariant Spared) (feed : Feed Log Options Replay ε) : Prop where
  log : invariant.Inv feed.log
  live : feed.live <+: source.records feed.log
  reach : feed.live.length ≤ invariant.committed feed.log
  pending : ∀ batch ∈ feed.pending, ∀ event ∈ batch, event ∈ source.records feed.log ∧
    source.position event ≤ invariant.committed feed.log
  next : ∀ subscription ∈ feed.subscription, subscription.next ≤ feed.live.length
  subscription : ∀ subscription ∈ feed.subscription, invariant.Holds feed.log subscription

variable {invariant : source.Invariant Spared} {feed : Feed Log Options Replay ε}

theorem due_eq (hcontiguous : Contiguous source.position (source.records log)) (options : Options)
    (start : Nat) : source.due log options start =
      ((source.records log).drop start).filter (source.wanted options) :=
  due_eq_filter hcontiguous (source.wanted options) start

theorem LogSource.Invariant.Holds.first (hlog : invariant.Inv log)
    (h : invariant.Holds log subscription) :
    subscription.events <+: source.due log subscription.options subscription.start := by
  unfold LogSource.Invariant.Holds at h
  split at h
  · rw [h]
    exact nil_prefix
  · exact invariant.first hlog h
  · obtain ⟨base, hfollowing⟩ := h
    rw [due_eq (invariant.contiguous hlog), hfollowing.events]
    exact (between_prefix_drop _ _ _).filter _
  · exact h

theorem feedLaw_of_fed (h : Fed invariant feed)
    (hmem : subscription ∈ feed.subscription) : FeedLaw source feed subscription := by
  have hholds := h.subscription subscription hmem
  refine ⟨hholds.first h.log, fun hlive hnext hall => ?_⟩
  rw [LogSource.Invariant.Holds, hlive] at hholds
  obtain ⟨base, hfollowing⟩ := hholds
  rw [due_eq (invariant.contiguous h.log), hfollowing.events, between_of_length_le]
  omega

/-! ## Steps -/

theorem LogSource.due_prefix {options : Options} {start : Nat}
    (h : source.records log <+: source.records log') :
    source.due log options start <+: source.due log' options start :=
  h.filter _

theorem Fed.act (h : Fed invariant feed) {act : Act} (hspared : Spared feed.log act)
    {batches : List (List ε)} (hact : source.act feed.log act = some (log', batches)) :
    Fed invariant { feed with log := log', pending := feed.pending ++ batches } := by
  obtain ⟨hlog, hgrows, hcommitted, hbatches⟩ := invariant.act h.log hspared hact
  refine ⟨hlog, h.live.trans hgrows, Nat.le_trans h.reach hcommitted,
    fun batch hbatch event hevent => ?_, h.next, fun subscription hmem => ?_⟩
  · rcases mem_append.mp hbatch with hold | hnew
    · obtain ⟨hrecord, hposition⟩ := h.pending batch hold event hevent
      exact ⟨hgrows.subset hrecord, Nat.le_trans hposition hcommitted⟩
    · exact hbatches batch hnew event hevent
  · have hholds := h.subscription subscription hmem
    unfold LogSource.Invariant.Holds at hholds ⊢
    split at hholds
    · exact hholds
    · exact invariant.grows h.log hspared hact hholds
    · obtain ⟨base, hfollowing⟩ := hholds
      exact ⟨base, hfollowing.grows (invariant.contiguous hlog) hgrows⟩
    · exact hholds.trans (LogSource.due_prefix hgrows)

theorem Fed.publish (h : Fed invariant feed) {append : Nat} {event : ε} {events : List ε}
    (hpending : feed.pending[append]? = some (event :: events))
    (hposition : source.position event = feed.live.length + 1) :
    Fed invariant { feed with
      live := feed.live ++ [event], pending := feed.pending.set append events } := by
  obtain ⟨hrecord, hreach⟩ := h.pending _ (List.mem_of_getElem? hpending) event
    mem_cons_self
  have hget := getElem?_of_mem_contiguous (invariant.contiguous h.log) hrecord hposition
  refine ⟨h.log, ?_, ?_, fun batch hbatch other hother => ?_, fun subscription hmem => ?_,
    h.subscription⟩
  · obtain ⟨rest, hrest⟩ := h.live
    rw [← hrest, getElem?_append_right (Nat.le_refl _), Nat.sub_self,
      ← head?_eq_getElem?, List.head?_eq_some_iff] at hget
    obtain ⟨later, hlater⟩ := hget
    exact ⟨later, by rw [← hrest, hlater]; simp⟩
  · dsimp only
    rw [length_append, length_singleton]
    omega
  · rcases mem_or_eq_of_mem_set hbatch with hold | rfl
    · exact h.pending batch hold other hother
    · exact h.pending _ (List.mem_of_getElem? hpending) other (mem_cons_of_mem _ hother)
  · have hnext := h.next subscription hmem
    dsimp only
    rw [length_append]
    omega

theorem sent_of_recv {capacity : Nat} {sent : List ε} {next : Nat} {event : ε}
    (h : recv capacity sent next = .event event) : sent[next]? = some event := by
  unfold recv at h
  split at h
  · cases h
  · cases hget : sent[next]? with
    | none => simp [hget] at h
    | some other => simpa [hget] using h

theorem follow_next (event : ε) :
    (subscription.follow source event).next = subscription.next + 1 := by
  unfold Subscription.follow
  dsimp only
  split
  · rfl
  · split
    · rfl
    · split <;> rfl

theorem follow_stage (event : ε) :
    (subscription.follow source event).stage = subscription.stage := by
  unfold Subscription.follow
  dsimp only
  split
  · rfl
  · split
    · rfl
    · split <;> rfl

/-- A step that is the subscription's alone. -/
theorem Fed.subscribed (h : Fed invariant feed) (hnext : subscription.next ≤ feed.live.length)
    (hholds : invariant.Holds feed.log subscription) :
    Fed invariant { feed with subscription := some subscription } := by
  refine ⟨h.log, h.live, h.reach, h.pending, fun other hmem => ?_, fun other hmem => ?_⟩
  · cases hmem
    exact hnext
  · cases hmem
    exact hholds

theorem Fed.step (h : Fed invariant feed) {capacity : Nat} {act : FeedAct Act Options}
    (hspared : Orderly source Spared feed act) {out : List Unit}
    {feed' : Feed Log Options Replay ε}
    (hstep : (feeding source capacity).step feed act = some (out, feed')) :
    Fed invariant feed' := by
  cases act with
  | act act =>
    simp only [feeding, map_eq_some_iff, Prod.mk.injEq] at hstep
    obtain ⟨⟨log', batches⟩, hact, -, rfl⟩ := hstep
    exact h.act hspared hact
  | publish append =>
    simp only [feeding] at hstep
    split at hstep
    · rename_i event events hpending
      cases hstep
      exact h.publish hpending (hspared event (by simp [hpending]))
    · cases hstep
  | subscribe options =>
    simp only [feeding] at hstep
    split at hstep
    · cases hstep
      exact h.subscribed (Nat.le_refl _) rfl
    · cases hstep
  | opens =>
    simp only [feeding, bind_eq_bind, bind_eq_some_iff] at hstep
    obtain ⟨subscription, hmem, hstep⟩ := hstep
    have hholds := h.subscription subscription hmem
    have hnext := h.next subscription hmem
    split at hstep
    · rename_i hstage
      rw [LogSource.Invariant.Holds, hstage] at hholds
      rw [bind_eq_some_iff] at hstep
      obtain ⟨⟨start, replay⟩, hopens, hstep⟩ := hstep
      cases hstep
      exact h.subscribed hnext
        (invariant.opens h.log hholds (Nat.le_trans hnext h.reach) hopens)
    · cases hstep
  | replay =>
    simp only [feeding, bind_eq_bind, bind_eq_some_iff] at hstep
    obtain ⟨subscription, hmem, hstep⟩ := hstep
    have hholds := h.subscription subscription hmem
    have hnext := h.next subscription hmem
    split at hstep
    · rename_i replay hstage
      have hfirst := hholds.first h.log
      rw [LogSource.Invariant.Holds, hstage] at hholds
      split at hstep
      · cases hstep
      · cases hstep
        exact h.subscribed hnext hfirst
      · rename_i onward hreplay
        cases hstep
        obtain ⟨hrest, hdone⟩ :=
          invariant.goes h.log hholds (Nat.le_trans hnext h.reach) hreplay
        refine h.subscribed hnext ?_
        cases hleft : onward.replay with
        | none =>
          have hlive : (subscription.replayed onward).stage = .live := by
            rw [Subscription.replayed, hleft, elim_none]
          rw [LogSource.Invariant.Holds, hlive]
          exact hdone hleft
        | some rest =>
          have hreplaying : (subscription.replayed onward).stage = .replaying rest := by
            rw [Subscription.replayed, hleft, elim_some]
          rw [LogSource.Invariant.Holds, hreplaying]
          exact hrest rest hleft
    · cases hstep
  | receive =>
    simp only [feeding, bind_eq_bind, bind_eq_some_iff] at hstep
    obtain ⟨subscription, hmem, hstep⟩ := hstep
    have hholds := h.subscription subscription hmem
    have hnext := h.next subscription hmem
    split at hstep
    · rename_i hstage
      have hfirst := hholds.first h.log
      rw [LogSource.Invariant.Holds, hstage] at hholds
      split at hstep
      · cases hstep
      · cases hstep
        exact h.subscribed hnext hfirst
      · rename_i event hreceived
        cases hstep
        have hsent := sent_of_recv hreceived
        obtain ⟨rest, hrest⟩ := h.live
        have hrecord : (source.records feed.log)[subscription.next]? = some event := by
          rw [← hrest, getElem?_append_left (List.getElem?_eq_some_iff.mp hsent).1, hsent]
        obtain ⟨base, hfollowing⟩ := hholds
        have hfollow := hfollowing.follow (invariant.contiguous h.log) hrecord
        refine h.subscribed ?_ ?_
        · rw [follow_next]
          exact (List.getElem?_eq_some_iff.mp hsent).1
        · rw [LogSource.Invariant.Holds, follow_stage, hstage]
          exact ⟨base, hfollow⟩
    · cases hstep
  | leave =>
    simp only [feeding, bind_eq_bind, bind_eq_some_iff] at hstep
    obtain ⟨subscription, hmem, hstep⟩ := hstep
    have hfirst := (h.subscription subscription hmem).first h.log
    have hnext := h.next subscription hmem
    cases hstep
    exact h.subscribed hnext hfirst

/-- **Subscriptions**: from a log whose records count as sent, where events are published in the
order of their positions, any subscription was handed the first of what it is due, and all of it
once it is level. -/
theorem feed_law (invariant : source.Invariant Spared) {log : Log} (hlog : invariant.Inv log)
    (hsent : (source.records log).length ≤ invariant.committed log) (capacity : Nat)
    (acts : List (FeedAct Act Options))
    (horderly : ∀ st ∈ (feeding source capacity).run { log, live := source.records log } acts,
      Orderly source Spared st.before st.input) :
    ∀ st ∈ (feeding source capacity).run { log, live := source.records log } acts,
      ∀ subscription ∈ st.after.subscription, FeedLaw source st.after subscription := by
  have hnew : Fed invariant
      ({ log, live := source.records log } : Feed Log Options Replay ε) :=
    ⟨hlog, prefix_rfl, hsent, by simp, by simp, by simp⟩
  intro st hst subscription hmem
  have hfed := Machine.inv_of_mem_run (Fed invariant) (Orderly source Spared)
    (fun feed act out after h hspared hstep => h.step hspared hstep) hnew horderly st hst
  exact feedLaw_of_fed hfed.2 hmem

end Aiwatcher.Library
