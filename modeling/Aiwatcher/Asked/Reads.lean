import Aiwatcher.Asked.Since

/-!
# Aiwatcher.Asked.Reads

Reads of the index answer calls that were applied and asked for, each once; and none is missing
where the acts of a run are admitted.
-/

namespace Aiwatcher.Asked

open Library Periods List

/-! ## What a read collects -/

theorem getElem?_foldl_collect (calls : List AskedCall) (found : BTreeMap Nat AskedCall)
    (position : Nat) :
    (calls.foldl collect found)[position]? =
      found[position]?.or (calls.find? fun call => call.position = position) := by
  induction calls generalizing found with
  | nil => simp
  | cons call calls ih =>
    rw [foldl_cons, ih, find?_cons]
    unfold collect
    by_cases hposition : call.position = position
    · subst hposition
      by_cases hfound : call.position ∈ found
      · simp [hfound, Std.ExtTreeMap.contains_iff_mem]
      · simp [hfound, Std.ExtTreeMap.contains_iff_mem]
    · split
      · simp [hposition]
      · rw [Table.getElem?_insert]
        simp [hposition]

namespace Ask

variable {ask : Ask} {disk : Disk} {nowMs : Int}

variable {call : AskedCall}

theorem mem_answer : call ∈ (ask.answer disk nowMs).calls ↔
    ((ask.meets disk nowMs).filter ask.wants).find?
      (fun other => other.position = call.position) = some call := by
  unfold answer
  rw [BTreeMap.mem_values]
  constructor
  · rintro ⟨position, hsome⟩
    rw [getElem?_foldl_collect, Std.ExtTreeMap.getElem?_empty, Option.none_or] at hsome
    have hposition : call.position = position := by simpa using find?_some hsome
    rwa [hposition]
  · intro hsome
    refine ⟨call.position, ?_⟩
    rw [getElem?_foldl_collect, Std.ExtTreeMap.getElem?_empty, Option.none_or, hsome]

theorem of_mem_answer (h : call ∈ (ask.answer disk nowMs).calls) :
    call ∈ ask.meets disk nowMs ∧ ask.wants call = true :=
  List.mem_filter.mp (mem_of_find?_eq_some (mem_answer.mp h))

theorem mem_answer_of_meets (h : call ∈ ask.meets disk nowMs)
    (hwants : ask.wants call = true) (honly : ∀ other ∈ ask.meets disk nowMs,
      other.position = call.position → other = call) :
    call ∈ (ask.answer disk nowMs).calls := by
  rw [mem_answer]
  have hmem : call ∈ (ask.meets disk nowMs).filter ask.wants := List.mem_filter.mpr ⟨h, hwants⟩
  cases hfind : ((ask.meets disk nowMs).filter ask.wants).find?
      (fun other => other.position = call.position) with
  | none =>
    have hnone := List.find?_eq_none.mp hfind call hmem
    simp at hnone
  | some other =>
    have hother := List.mem_filter.mp (mem_of_find?_eq_some hfind)
    have hposition : other.position = call.position := by simpa using find?_some hfind
    rw [honly other hother.1 hposition]

theorem answer_once : (ask.answer disk nowMs).calls.Pairwise
    fun call later => call.position < later.position := by
  have hposition : ∀ entry ∈ (((ask.meets disk nowMs).filter ask.wants).foldl collect ∅).toList,
      entry.2.position = entry.1 := by
    intro entry hentry
    have hsome := Std.ExtTreeMap.mem_toList_iff_getElem?_eq_some.mp hentry
    rw [getElem?_foldl_collect, Std.ExtTreeMap.getElem?_empty, Option.none_or] at hsome
    simpa using find?_some hsome
  unfold answer BTreeMap.values
  rw [pairwise_map]
  refine (Std.ExtTreeMap.ordered_keys_toList).imp_of_mem ?_
  intro entry later hentry hlater hlt
  rw [hposition entry hentry, hposition later hlater]
  exact Std.compare_eq_lt.mp hlt

theorem mem_meets : call ∈ ask.meets disk nowMs ↔
    (∃ page ∈ disk.pages, page.hour ∈ Disk.hours ask.startMs nowMs ∧ call ∈ page.calls) ∨
      call ∈ ask.pending := by
  simp only [meets, mem_append, mem_flatMap, mem_filter, decide_eq_true_eq]
  constructor
  · rintro (⟨hour, hhour, page, ⟨hpage, rfl⟩, hcall⟩ | hpending)
    · exact .inl ⟨page, hpage, hhour, hcall⟩
    · exact .inr hpending
  · rintro (⟨page, hpage, hhour, hcall⟩ | hpending)
    · exact .inl ⟨page.hour, hhour, page, ⟨hpage, rfl⟩, hcall⟩
    · exact .inr hpending

theorem mem_hours {startMs hour : Int} : hour ∈ Disk.hours startMs nowMs ↔
    hourOf startMs ≤ hour + 1 ∧ hour ≤ hourOf nowMs := by
  simp only [Disk.hours, mem_map, mem_range]
  constructor
  · rintro ⟨n, hn, rfl⟩
    omega
  · intro h
    exact ⟨(hour + 1 - hourOf startMs).toNat, by omega, by omega⟩

theorem hour_mem_hours {page : Page} (hhour : hourOf call.atMs ≤ page.hour + 1)
    (hnow : page.hour ≤ hourOf nowMs) (hfrom : ask.fromMs ≤ call.atMs)
    (hreach : ¬ Beyond ask.reachesFromMs call) : page.hour ∈ Disk.hours ask.startMs nowMs := by
  have hstart : ask.startMs ≤ call.atMs := by
    unfold startMs
    cases hsome : ask.reachesFromMs with
    | none => simpa using hfrom
    | some reachMs =>
      have hle : reachMs ≤ call.atMs := by
        by_contra hlt
        exact hreach ⟨reachMs, hsome, by omega⟩
      simpa using ⟨hfrom, hle⟩
  have hours : hourOf ask.startMs ≤ hourOf call.atMs := Int.ediv_le_ediv (by decide) hstart
  exact mem_hours.mpr ⟨by omega, hnow⟩

end Ask

/-! ## What is always answered -/

theorem Orderly.eq_of_position {board : Board} (h : Orderly board) {call other : AskedCall}
    (hcall : call ∈ board.applied) (hother : other ∈ board.applied)
    (hposition : other.position = call.position) : other = call := by
  have hnodup : (board.applied.map AskedCall.position).Nodup :=
    (List.pairwise_map.mpr h.ordered).imp Nat.ne_of_lt
  exact inj_on_of_nodup_map hnodup hother hcall hposition

theorem Orderly.answers {board : Board} (h : Orderly board) {asked : Asking}
    (hasking : board.asking = some asked) (nowMs : Int) :
    Sound ⟨asked.ask, asked.before, board.applied, asked.ask.answer board.disk nowMs⟩ where
  once := Ask.answer_once
  only := by
    intro call hcall
    obtain ⟨hmeets, hwants⟩ := Ask.of_mem_answer hcall
    simp only [Ask.wants, Bool.and_eq_true, decide_eq_true_eq] at hwants
    refine ⟨?_, hwants.2, hwants.1⟩
    rcases Ask.mem_meets.mp hmeets with ⟨page, hpage, -, hcall⟩ | hpending
    · exact h.pages page hpage call hcall
    · exact (h.asking _ hasking).1 call hpending

theorem Board.answer_of_mem {board after : Board} {act : Act} {out : List Answered}
    {answered : Answered} (hstep : board.act act = some (out, after)) (hmem : answered ∈ out) :
    ∃ nowMs asked, act = .answer nowMs ∧ board.asking = some asked ∧
      answered = ⟨asked.ask, asked.before, board.applied, asked.ask.answer board.disk nowMs⟩ := by
  cases act with
  | answer nowMs =>
    obtain ⟨asked, hasking, heq⟩ := Option.map_eq_some_iff.mp hstep
    cases heq
    exact ⟨nowMs, asked, rfl, hasking, List.mem_singleton.mp hmem⟩
  | take due =>
    simp only [Board.act] at hstep
    split at hstep
    · cases hstep
    · obtain ⟨taken, -, heq⟩ := Option.map_eq_some_iff.mp hstep
      cases heq
      cases hmem
  | write answer saves =>
    obtain ⟨flush, -, heq⟩ := Option.map_eq_some_iff.mp hstep
    cases heq
    cases hmem
  | ask project fromMs =>
    simp only [Board.act] at hstep
    split at hstep
    · cases hstep
    · cases hstep
      cases hmem
  | apply event =>
    cases hstep
    cases hmem
  | prune cutoffMs deletes =>
    cases hstep
    cases hmem

theorem Orderly.answered {board after : Board} (h : Orderly board) {act : Act}
    {out : List Answered} (hstep : board.act act = some (out, after)) :
    ∀ answered ∈ out, Sound answered := by
  intro answered hanswered
  obtain ⟨nowMs, asked, rfl, hasking, rfl⟩ := Board.answer_of_mem hstep hanswered
  exact h.answers hasking nowMs

/-! ## What is answered where acts are admitted -/

/-- A page of what was applied by some position. -/
def FiledBy (board : Board) (page : Page) : Prop :=
  Filed board.applied page ∧
    ∃ through, board.index.appliedThrough = some through ∧ page.last ≤ through

/-- What was applied waits, is on its way, on a page, or not reached; and so is what a read asks
for. -/
structure Whole (board : Board) : Prop where
  filed : ∀ page ∈ board.disk.pages, FiledBy board page
  flushing : ∀ flush page, board.flushing = some flush → flush.page = some page → FiledBy board page
  somewhere : ∀ call ∈ board.applied, call ∈ board.inFlight ++ board.index.pending ∨
    board.disk.holds call ∨ Beyond board.index.reach.readsFromMs call
  asking : ∀ asked, board.asking = some asked → ∀ call ∈ asked.before,
    call ∈ asked.onTheirWay ++ asked.ask.pending ∨ board.disk.holds call ∨
      Beyond asked.ask.reachesFromMs call

theorem Disk.holds_create {board : Board} {page : Page} (h : Whole board)
    (hpage : FiledBy board page) {call : AskedCall} (hcall : call ∈ page.calls) :
    (board.disk.create page).holds call := by
  unfold Disk.create
  split
  · rename_i htaken
    obtain ⟨other, hother, hkey⟩ := List.any_eq_true.mp htaken
    refine ⟨other, hother, ?_⟩
    rwa [← hpage.1.calls_eq (h.filed other hother).1 hkey]
  · exact ⟨page, by simp, hcall⟩

theorem Disk.holds.create {disk : Disk} {call : AskedCall} (h : disk.holds call) (page : Page) :
    (disk.create page).holds call := by
  obtain ⟨held, hheld, hcall⟩ := h
  refine ⟨held, ?_, hcall⟩
  unfold Disk.create
  split
  · exact hheld
  · exact mem_append_left _ hheld

namespace Whole

variable {board after : Board}

section

variable (h : Whole board)

include h

theorem apply (event : RecordedEvent) : Whole (board.apply event) := by
  unfold Board.apply
  rcases Index.apply_cases board.index event with
    ⟨heq, hnone⟩ | ⟨hnew, hpending, hreach, hthrough, hposition⟩
  · rw [heq, hnone, Option.toList_none, append_nil]
    exact h
  · have hfiled : ∀ page, FiledBy board page → FiledBy (board.apply event) page := by
      rintro page ⟨hfiled, through, hsome, hlast⟩
      have hlt := hnew through hsome
      refine ⟨hfiled.append fun call hcall => ?_, positionOf event, hthrough, by omega⟩
      have := hposition call (by simpa using hcall)
      omega
    refine ⟨fun page hpage => hfiled page (h.filed page hpage),
      fun flush page hflush hpage => hfiled page (h.flushing flush page hflush hpage), ?_, h.asking⟩
    intro call hcall
    rcases List.mem_append.mp hcall with hcall | hcall
    · rcases h.somewhere call hcall with hwaits | hheld | hbeyond
      · left
        simp only [Board.inFlight, hpending, ← append_assoc] at hwaits ⊢
        exact mem_append_left _ hwaits
      · exact .inr (.inl hheld)
      · right; right
        rw [hreach]
        exact Index.beyond_reached _ _ hbeyond
    · left
      simp only [hpending]
      exact mem_append_right _ (mem_append_right _ hcall)

theorem take (horderly : Orderly board) {flush : Index.Flush} {index : Index} {due : Bool}
    (hnone : board.flushing = none) (htake : board.index.take due = some (flush, index))
    (hadmits : Admits board (.take due)) : Whole { board with flushing := some flush, index } := by
  obtain ⟨through, hthrough, ⟨hempty, hpage, rfl⟩ | ⟨hpage, hsome, rfl⟩⟩ := Index.take_cases htake
  · refine ⟨h.filed, ?_, ?_, h.asking⟩
    · intro taken page htaken hsome
      cases Option.some.inj htaken
      simp [hpage] at hsome
    · simpa [Board.inFlight, hpage, hnone] using h.somewhere
  · obtain ⟨call, rest, hpending⟩ := exists_cons_of_ne_nil hsome
    have hflush : flush.page =
        some ⟨hourOf call.atMs, call.position, through, call :: rest⟩ := by
      simp [hpage, hpending, Index.pageOf]
    refine ⟨h.filed, ?_, ?_, h.asking⟩
    · intro taken page htaken hsome
      cases Option.some.inj htaken
      cases Option.some.inj (hflush.symm.trans hsome)
      refine ⟨filed_of_suffix horderly.ordered ?_ ?_ ?_, through, hthrough, le_refl _⟩
      · intro other hother
        obtain ⟨last, hlast, hle⟩ := horderly.through other hother
        cases Option.some.inj (hthrough.symm.trans hlast)
        exact hle
      · rw [← hpending]
        exact (suffix_append _ _).trans horderly.waiting
      · exact hadmits (flush, _) htake _ hflush
    · intro other hother
      rcases h.somewhere other hother with hwaits | hheld
      · left
        simpa [Board.inFlight, hnone, hflush, hpending] using hwaits
      · exact .inr hheld

theorem write {flush : Index.Flush} (hflush : board.flushing = some flush) (answer : PageAnswer)
    (saves : Bool) : Whole (board.write flush answer saves) := by
  unfold Board.write
  cases hsome : flush.page with
  | none =>
    have hdisk : ∀ disk : Disk, disk.pages = board.disk.pages →
        Whole { board with disk, index := board.index.flushed flush, flushing := none } := by
      intro disk hdisk
      refine ⟨fun page hpage => h.filed page (by simpa [hdisk] using hpage), by simp, ?_, ?_⟩
      · simpa [Board.inFlight, Index.flushed, hflush, hsome, Disk.holds, hdisk] using h.somewhere
      · simpa [Disk.holds, hdisk] using h.asking
    cases answer <;>
      · apply hdisk
        cases flush.reach.through <;> simp [Board.stores, hsome]
        split <;> simp [pages_save]
  | some page =>
    have hpage := h.flushing flush page hflush hsome
    have hcreate : ∀ other ∈ (board.disk.create page).pages, FiledBy board other := by
      intro other hother
      rcases mem_pages_create hother with hother | rfl
      · exact h.filed other hother
      · exact hpage
    have hwaits : ∀ call ∈ board.applied, call ∈ page.calls ∨ call ∈ board.index.pending ∨
        board.disk.holds call ∨ Beyond board.index.reach.readsFromMs call := by
      simpa [Board.inFlight, hflush, hsome, or_assoc] using h.somewhere
    have hback : ∀ disk : Disk, (∀ other ∈ disk.pages, FiledBy board other) →
        (∀ call, board.disk.holds call → disk.holds call) →
        Whole { board with disk, index := board.index.putBack page, flushing := none } := by
      intro disk hfiled hheld
      refine ⟨hfiled, by simp, ?_, ?_⟩
      · intro call hcall
        rcases hwaits call hcall with hpage | hpending | hdisk | hbeyond
        · exact .inl (by simp [Board.inFlight, Index.putBack, hpage])
        · exact .inl (by simp [Board.inFlight, Index.putBack, hpending])
        · exact .inr (.inl (hheld call hdisk))
        · exact .inr (.inr hbeyond)
      · intro asked hasking call hcall
        exact (h.asking asked hasking call hcall).imp_right (Or.imp_left (hheld call))
    cases answer with
    | refused => exact hback board.disk h.filed fun _ hheld => hheld
    | lost =>
      refine hback _ ?_ ?_
      · simpa [Board.stores, hsome] using hcreate
      · intro call hheld
        simpa [Board.stores, hsome] using hheld.create page
    | written =>
      have hdisk : ∀ disk : Disk, disk.pages = (board.disk.create page).pages →
          Whole { board with disk, index := board.index.flushed flush, flushing := none } := by
        intro disk hdisk
        have hheld : ∀ call, (board.disk.create page).holds call → disk.holds call := by
          simp [Disk.holds, hdisk]
        refine ⟨fun other hother => hcreate other (by simpa [hdisk] using hother), by simp, ?_, ?_⟩
        · intro call hcall
          rcases hwaits call hcall with hcall | hpending | hhad | hbeyond
          · exact .inr (.inl (hheld call (Disk.holds_create h hpage hcall)))
          · exact .inl (by simp [Board.inFlight, Index.flushed, hpending])
          · exact .inr (.inl (hheld call (hhad.create page)))
          · exact .inr (.inr hbeyond)
        · intro asked hasking call hcall
          exact (h.asking asked hasking call hcall).imp_right
            (Or.imp_left fun hhad => hheld call (hhad.create page))
      apply hdisk
      simp only [Board.stores, hsome, Option.elim_some]
      cases flush.reach.through with
      | none => rfl
      | some through =>
        dsimp only [Option.elim_some]
        split <;> rfl

theorem prune {cutoffMs : Int} {deletes : Option Nat}
    (hadmits : Admits board (.prune cutoffMs deletes)) : Whole (board.prune cutoffMs deletes) := by
  have hindex : (board.prune cutoffMs deletes).index.appliedThrough = board.index.appliedThrough ∧
      (board.prune cutoffMs deletes).index.pending = board.index.pending ∧
      ∀ call, Beyond board.index.reach.readsFromMs call →
        Beyond (board.prune cutoffMs deletes).index.reach.readsFromMs call := by
    unfold Board.prune Index.prunedTo
    dsimp only
    split
    · split
      · exact ⟨rfl, rfl, fun call hbeyond => Index.beyond_raised _ hbeyond⟩
      · exact ⟨rfl, rfl, fun _ hbeyond => hbeyond⟩
    · exact ⟨rfl, rfl, fun _ hbeyond => hbeyond⟩
  have hheld : ∀ call, board.disk.holds call → (board.prune cutoffMs deletes).disk.holds call ∨
      ∃ page ∈ board.disk.expired cutoffMs deletes, call ∈ page.calls := by
    rintro call ⟨page, hpage, hcall⟩
    by_cases hgone : page ∈ board.disk.expired cutoffMs deletes
    · exact .inr ⟨page, hgone, hcall⟩
    · exact .inl ⟨page, mem_pages_without.mpr ⟨hpage, hgone⟩, hcall⟩
  refine ⟨?_, ?_, ?_, ?_⟩
  · intro page hpage
    obtain ⟨hfiled, hthrough⟩ := h.filed page (mem_pages_without.mp hpage).1
    exact ⟨hfiled, by rwa [hindex.1]⟩
  · intro flush page hflush hpage
    obtain ⟨hfiled, hthrough⟩ := h.flushing flush page hflush hpage
    exact ⟨hfiled, by rwa [hindex.1]⟩
  · intro call hcall
    rw [hindex.2.1]
    rcases h.somewhere call hcall with hwaits | hhad | hbeyond
    · exact .inl hwaits
    · rcases hheld call hhad with hkept | ⟨page, hpage, hcall⟩
      · exact .inr (.inl hkept)
      · exact .inr (.inr (hadmits page hpage call hcall).1)
    · exact .inr (.inr (hindex.2.2 call hbeyond))
  · intro asked hasking call hcall
    rcases h.asking asked hasking call hcall with hwaits | hhad | hbeyond
    · exact .inl hwaits
    · rcases hheld call hhad with hkept | ⟨page, hpage, hcall⟩
      · exact .inr (.inl hkept)
      · exact .inr (.inr ((hadmits page hpage call hcall).2 _ hasking))
    · exact .inr (.inr hbeyond)

theorem ask (project : Option Store.ProjectScope) (fromMs : Int) :
    Whole { board with
      asking := some ⟨board.index.ask project fromMs, board.applied, board.inFlight⟩ } := by
  refine ⟨h.filed, h.flushing, h.somewhere, ?_⟩
  intro asked hasking call hcall
  cases Option.some.inj hasking
  exact h.somewhere call hcall

theorem step (horderly : Orderly board) {act : Act} {out : List Answered}
    (hadmits : Admits board act) (hstep : board.act act = some (out, after)) : Whole after := by
  cases act with
  | apply event =>
    cases hstep
    exact h.apply event
  | take due =>
    simp only [Board.act] at hstep
    split at hstep
    · cases hstep
    · rename_i hfree
      obtain ⟨⟨flush, index⟩, htake, heq⟩ := Option.map_eq_some_iff.mp hstep
      cases heq
      exact h.take horderly (by simpa using hfree) htake hadmits
  | write answer saves =>
    obtain ⟨flush, hflush, heq⟩ := Option.map_eq_some_iff.mp hstep
    cases heq
    exact h.write hflush answer saves
  | prune cutoffMs deletes =>
    cases hstep
    exact h.prune hadmits
  | ask project fromMs =>
    simp only [Board.act] at hstep
    split at hstep
    · cases hstep
    · cases hstep
      exact h.ask project fromMs
  | answer nowMs =>
    obtain ⟨asked, -, heq⟩ := Option.map_eq_some_iff.mp hstep
    cases heq
    exact ⟨h.filed, h.flushing, h.somewhere, by simp⟩

theorem answers (horderly : Orderly board) {asked : Asking} (hasking : board.asking = some asked)
    {nowMs : Int} (hadmits : Admits board (.answer nowMs)) :
    Complete ⟨asked.ask, asked.before, board.applied, asked.ask.answer board.disk nowMs⟩ := by
  intro call hcall hproject hfrom hreach
  have hmeets : call ∈ asked.ask.meets board.disk nowMs := by
    rw [Ask.mem_meets]
    have hstored : board.disk.holds call →
        ∃ page ∈ board.disk.pages, page.hour ∈ Disk.hours asked.ask.startMs nowMs ∧
          call ∈ page.calls := by
      rintro ⟨page, hpage, hcall⟩
      exact ⟨page, hpage, Ask.hour_mem_hours ((h.filed page hpage).1.hours call hcall)
        (hadmits.1 page hpage) hfrom hreach, hcall⟩
    rcases h.asking asked hasking call hcall with hwaits | hheld | hbeyond
    · rcases List.mem_append.mp hwaits with hway | hpending
      · exact .inl (hstored ((hadmits.2 asked hasking call hway).resolve_right hreach))
      · exact .inr hpending
    · exact .inl (hstored hheld)
    · exact absurd hbeyond hreach
  refine Ask.mem_answer_of_meets hmeets (by simp [Ask.wants, hfrom, hproject]) ?_
  intro other hother hposition
  have happlied : other ∈ board.applied := by
    rcases Ask.mem_meets.mp hother with ⟨page, hpage, -, hother⟩ | hpending
    · exact horderly.pages page hpage other hother
    · exact (horderly.asking _ hasking).1 other hpending
  exact horderly.eq_of_position ((horderly.asking asked hasking).2 call hcall) happlied hposition

end

theorem answered (h : Whole board) (horderly : Orderly board) {act : Act} {out : List Answered}
    (hadmits : Admits board act) (hstep : board.act act = some (out, after)) :
    ∀ answered ∈ out, Complete answered := by
  intro answered hanswered
  obtain ⟨nowMs, asked, rfl, hasking, rfl⟩ := Board.answer_of_mem hstep hanswered
  exact h.answers horderly hasking hadmits

end Whole

theorem whole_new (contiguous : Bool) : Whole (.new contiguous) := by
  constructor <;> simp [Board.new]

/-! ## Runs -/

/-- **Reads of the index**, in any order of events, flushes, prunes and reads: they answer calls
that were applied and are asked for, each once, and miss none where the acts are admitted. -/
theorem reads_answer (contiguous : Bool) (acts : List Act) :
    (∀ answered ∈ indexing.emitted (.new contiguous) acts, Sound answered) ∧
      ((∀ st ∈ indexing.run (.new contiguous) acts, Admits st.before st.input) →
        ∀ answered ∈ indexing.emitted (.new contiguous) acts, Complete answered) := by
  have horderly : ∀ st ∈ indexing.run (.new contiguous) acts, Orderly st.before := fun st hst =>
    (Machine.inv_of_mem_run (M := indexing) Orderly (fun _ _ => True)
      (fun _ _ _ _ h _ hstep => h.step hstep) (orderly_new contiguous) (fun _ _ => trivial) st hst).1
  constructor
  · intro answered hanswered
    obtain ⟨st, hst, hout⟩ := List.mem_flatMap.mp hanswered
    exact (horderly st hst).answered (Machine.step_of_mem_run hst) answered hout
  · intro hadmits answered hanswered
    obtain ⟨st, hst, hout⟩ := List.mem_flatMap.mp hanswered
    have hwhole := (Machine.inv_of_mem_run (M := indexing) (fun board => Orderly board ∧ Whole board)
      Admits (fun _ _ _ _ h hadmits hstep => ⟨h.1.step hstep, h.2.step h.1 hadmits hstep⟩)
      ⟨orderly_new contiguous, whole_new contiguous⟩ hadmits st hst).1.2
    exact hwhole.answered (horderly st hst) (hadmits st hst) (Machine.step_of_mem_run hst) answered
      hout

/-- A call that ended at an hour of the day, and said what it asked in. -/
def callAt (position : UInt64) (hour : Int) : RecordedEvent where
  eventType := .llmCompleted
  data := .object
    [("asked_digests", .array [.string "0123456789abcdef0123456789abcdef"])]
  metadata := ⟨"message", "run:run-1", position, 1, 1, none, "", "", "run-1", none, none, none,
    none, none, none, none, none, none, none, "", 1, ⟨"service", none, "rust", none⟩, hour *
    3600000000000, 1⟩

/-- A page that is refused and written again, retention, and a read while a call waits. -/
def readBack : List Act :=
  [.apply (callAt 1 0), .take true, .write .refused true, .apply (callAt 2 0), .take true,
    .write .written true, .prune hourMs none, .apply (callAt 3 2), .ask none 0, .apply (callAt 4 2),
    .answer (3 * hourMs)]

theorem readBack_complete : (indexing.emitted (.new true) readBack).length = 1 ∧
    ∀ answered ∈ indexing.emitted (.new true) readBack, Complete answered :=
  ⟨by decide +kernel, (reads_answer true readBack).2 (by decide +kernel)⟩

/-! ## Reads that are not exact -/

/-- An index that begins past the log's first event, and a call that is told late. -/
def toldLate : List Act :=
  [.apply (callAt 5 2), .apply (callAt 6 1), .ask none 0, .answer (3 * hourMs)]

/-- Two calls hours apart, written to one page. -/
def hoursApart : List Act :=
  [.apply (callAt 1 0), .apply (callAt 2 5), .take true, .write .written true,
    .ask none (4 * hourMs), .answer (6 * hourMs)]

/-- A read while a page is on its way. -/
def onItsWay : List Act :=
  [.apply (callAt 1 0), .take true, .ask none 0, .answer hourMs, .write .written true]

/-- Retention removes a page that runs on past the hour it is filed under. -/
def ranOn : List Act :=
  [.apply (callAt 1 0), .apply (callAt 2 1), .take true, .write .written true, .prune hourMs none,
    .ask none 0, .answer (2 * hourMs)]

/-- A call was asked for, within the reach, and is not answered. -/
def missed (acts : List Act) : Bool :=
  (indexing.emitted (.new true) acts).any fun answered => answered.applied.any fun call =>
    call.project = answered.ask.project && answered.ask.fromMs ≤ call.atMs &&
      !decide (Beyond answered.since.reachesFromMs call) &&
      !answered.since.calls.contains call

theorem not_exact_of_missed {acts : List Act} (h : missed acts = true) :
    ¬ ∀ answered ∈ indexing.emitted (.new true) acts, Exact answered := by
  intro hexact
  obtain ⟨answered, hanswered, h⟩ := List.any_eq_true.mp h
  obtain ⟨call, hcall, h⟩ := List.any_eq_true.mp h
  simp only [Bool.and_eq_true, decide_eq_true_eq, Bool.not_eq_eq_eq_not, Bool.not_true,
    decide_eq_false_iff_not, contains_eq_mem] at h
  exact h.2 ((hexact answered hanswered call).mpr ⟨hcall, h.1.1.1, h.1.1.2, h.1.2⟩)

/-- A call in memory is answered from before the reach; and one on a page that spans hours, on its
way, or removed with its page is missed. -/
theorem reads_not_exact :
    (¬ ∀ answered ∈ indexing.emitted (.new true) toldLate, Exact answered) ∧
      (¬ ∀ answered ∈ indexing.emitted (.new true) hoursApart, Exact answered) ∧
      (¬ ∀ answered ∈ indexing.emitted (.new true) onItsWay, Exact answered) ∧
      ¬ ∀ answered ∈ indexing.emitted (.new true) ranOn, Exact answered := by
  refine ⟨fun h => ?_, not_exact_of_missed (by decide +kernel),
    not_exact_of_missed (by decide +kernel), not_exact_of_missed (by decide +kernel)⟩
  have hreach : ∀ answered ∈ indexing.emitted (.new true) toldLate,
      ∀ call ∈ answered.since.calls, ¬ Beyond answered.since.reachesFromMs call :=
    fun answered hanswered call hcall => ((h answered hanswered call).mp hcall).2.2.2
  exact absurd hreach (by decide +kernel)

end Aiwatcher.Asked
