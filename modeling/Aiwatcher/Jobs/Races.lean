import Aiwatcher.Jobs.Model

/-!
# Aiwatcher.Jobs.Races

The law of a job's record, for any runner: an end is final, and a worker writes only under its
own lease.  The runners read the record, check what they read, and write it later; the law
holds where no write of another comes in between that the writer had to know of.
-/

namespace Aiwatcher.Jobs

open Library List Machine

/-- Where a party stands with the record: it has not looked yet, it looked, or it holds the
lease. -/
inductive Stage where
  | fresh
  | seen
  | held
  deriving DecidableEq

section

variable {Record Side Answer Task : Type} (state : Record → JobState)
  (claimedBy : Record → String)

/-! ## The law and its condition -/

/-- What a step may do to the record. -/
structure FinalStep (st : Step (World JobParty Record Side Task) (Turn JobParty Answer)
    (Touch JobParty Record)) : Prop where
  ends : (state st.before.record).isFinished = true →
    state st.after.record = state st.before.record
  leased : ∀ put ∈ st.out, ∀ name, put.party = .worker name → put.how = .wrote →
    claimedBy st.before.record = name

/-- A write that the put after it would undo: an end, or another worker's under its lease. -/
def Clash (between put : Touch JobParty Record) : Prop :=
  between.how ≠ .looked ∧
    ((state between.record).isFinished = true ∧ state between.record ≠ state put.record ∨
      put.how = .wrote ∧ (∃ name, put.party = .worker name) ∧
        ∃ name, between.party = .worker name)

/-- Between a party's last touch of the record and its put, nobody else's write clashes. -/
def Unraced (touches : List (Touch JobParty Record)) : Prop :=
  ∀ past touch mid put rest, touches = past ++ touch :: (mid ++ put :: rest) →
    put.how ≠ .looked → touch.party = put.party → (∀ between ∈ mid, between.party ≠ put.party) →
      ∀ between ∈ mid, ¬Clash state between put

/-- A runner looks before it claims, claims before it writes, and looks again under its lease;
an end that it writes is the last thing it does. -/
structure Leased (program : Program JobParty Record Side Answer Task) (stage : Task → Stage)
    (fits : JobParty → Task → Prop) : Prop where
  begins : ∀ party, stage (program.begins party) = .fresh ∧ fits party (program.begins party)
  works : ∀ {party task does side answer after}, fits party task →
    program.access party task = .work does → (does side answer).2 = some after →
      fits party after ∧ stage after = stage task
  looks : ∀ {party task next record answer after}, fits party task →
    program.access party task = .look next → next record answer = some after →
      fits party after ∧
        (stage task = .fresh ∧ stage after = .seen ∧ (state record).isFinished = false ∨
          stage task = .held ∧ stage after = .held ∧ state record ≠ .cancelled ∧
            ∃ name, party = .worker name ∧ claimedBy record = name)
  cancels : ∀ {request task how record next refused}, fits (.canceller request) task →
    program.access (.canceller request) task = .put how record next refused →
      stage task = .seen ∧ how = .wrote ∧ state record = .cancelled ∧ next = none ∧ refused = none
  puts : ∀ {name task how record next refused}, fits (.worker name) task →
    program.access (.worker name) task = .put how record next refused →
      (stage task = .seen ∧ how = .took ∧ refused = none ∨ stage task = .held ∧ how = .wrote) ∧
        state record ≠ .cancelled ∧ (claimedBy record = name ∨ claimedBy record = "") ∧
        (∀ after ∈ next, fits (.worker name) after ∧ stage after = .held ∧
          (state record).isFinished = false ∧ claimedBy record = name) ∧
        ∀ after ∈ refused, fits (.worker name) after ∧ stage after = .held

/-! ## How a party saw the record -/

/-- The last touch of a party: an open record, under its lease where it holds one, that is
still there or that another put has replaced. -/
structure Sees (history : List (Touch JobParty Record)) (record : Record) (party : JobParty)
    (stage : Stage) : Prop where
  intro ::
  exists_touch : ∃ past touch mid, history = past ++ touch :: mid ∧ touch.party = party ∧
    (∀ between ∈ mid, between.party ≠ party) ∧ (state touch.record).isFinished = false ∧
    (stage = .held → ∀ name, party = .worker name → claimedBy touch.record = name) ∧
    (record = touch.record ∨ ∃ between ∈ mid, between.how ≠ .looked ∧ between.record = record)

variable {state claimedBy}

variable {party : JobParty} {touch : Touch JobParty Record}
  {world' : World JobParty Record Side Task}

theorem Sees.concat {history : List (Touch JobParty Record)} {record record' : Record}
    {stage : Stage} (h : Sees state claimedBy history record party stage)
    (hparty : touch.party ≠ party)
    (hrecord : record' = record ∨ touch.how ≠ .looked ∧ touch.record = record') :
    Sees state claimedBy (history ++ [touch]) record' party stage := by
  obtain ⟨past, last, mid, rfl, hlast, hmid, hopen, hlease, hnow⟩ := h
  refine ⟨past, last, mid ++ [touch], by simp, hlast, ?_, hopen, hlease, ?_⟩
  · intro between hbetween
    rcases mem_append.mp hbetween with h | h
    · exact hmid between h
    · rw [mem_singleton.mp h]
      exact hparty
  · rcases hrecord with rfl | ⟨hhow, htouched⟩
    · refine hnow.imp_right ?_
      rintro ⟨between, hmem, hput⟩
      exact ⟨between, mem_append_left _ hmem, hput⟩
    · exact .inr ⟨touch, by simp, hhow, htouched⟩

theorem Sees.now {history : List (Touch JobParty Record)} {stage : Stage}
    (hopen : (state touch.record).isFinished = false)
    (hlease : stage = .held → ∀ name, touch.party = .worker name → claimedBy touch.record = name) :
    Sees state claimedBy (history ++ [touch]) touch.record touch.party stage :=
  ⟨history, touch, [], rfl, rfl, by simp, hopen, hlease, .inl rfl⟩

/-- **Nothing has come in between**: the record a party puts over is open and under its lease,
or of its own kind. -/
theorem Sees.unraced {history : List (Touch JobParty Record)} {record : Record} {stage : Stage}
    (h : Sees state claimedBy history record party stage) {put : Touch JobParty Record}
    (hunraced : Unraced state (history ++ [put])) (hput : put.how ≠ .looked)
    (hparty : put.party = party) :
    ((state record).isFinished = false ∧
        (stage = .held → ∀ name, party = .worker name → claimedBy record = name)) ∨
      ∃ between ∈ history, between.how ≠ .looked ∧ between.record = record ∧
        between.party ≠ party ∧ ¬Clash state between put := by
  obtain ⟨past, touch, mid, rfl, htouch, hmid, hopen, hlease, hnow⟩ := h
  rcases hnow with rfl | ⟨between, hbetween, hhow, rfl⟩
  · exact .inl ⟨hopen, hlease⟩
  · refine .inr ⟨between, by simp [hbetween], hhow, rfl, hmid between hbetween, ?_⟩
    refine hunraced past touch mid put [] (by simp) hput (by rw [htouch, hparty]) ?_ between
      hbetween
    rw [hparty]
    exact hmid

/-! ## The invariant -/

variable (state claimedBy) in
/-- What holds of a run that is not raced: every task saw the record, and a worker that wrote
an end is done. -/
structure Lawful (stage : Task → Stage) (fits : JobParty → Task → Prop)
    (history : List (Touch JobParty Record)) (world : World JobParty Record Side Task) : Prop where
  tasks : ∀ party task, world.tasks party = some task → fits party task ∧
    (stage task = .fresh ∨ Sees state claimedBy history world.record party (stage task))
  own : ∀ name task, (state world.record).isFinished = true → claimedBy world.record = name →
    world.tasks (.worker name) = some task → state world.record = .cancelled ∨ stage task = .fresh
  cancelled : ∀ put ∈ history, put.how ≠ .looked → ∀ request, put.party = .canceller request →
    state put.record = .cancelled
  named : world.tasks (.worker "") = none

variable {program : Program JobParty Record Side Answer Task} {stage : Task → Stage}
  {fits : JobParty → Task → Prop} {history : List (Touch JobParty Record)}
  {world : World JobParty Record Side Task}

theorem Lawful.untouched (h : Lawful state claimedBy stage fits history world) {next : Option Task}
    (hrecord : world'.record = world.record)
    (htasks : world'.tasks = Function.update world.tasks party next)
    (hnext : ∀ after ∈ next, fits party after ∧ (stage after = .fresh ∨
      ∃ task, world.tasks party = some task ∧ stage after = stage task))
    (hnamed : party = .worker "" → next = none) :
    Lawful state claimedBy stage fits history world' where
  tasks other task htask := by
    rw [htasks, Function.update_apply] at htask
    rw [hrecord]
    split at htask
    · rename_i heq
      subst heq
      obtain ⟨hfits, hstage⟩ := hnext task htask
      refine ⟨hfits, hstage.elim .inl ?_⟩
      rintro ⟨old, hold, hsame⟩
      rw [hsame]
      exact (h.tasks other old hold).2
    · exact h.tasks other task htask
  own name task hends hclaimed htask := by
    rw [htasks, Function.update_apply] at htask
    rw [hrecord] at hends hclaimed ⊢
    split at htask
    · rename_i heq
      obtain ⟨-, hstage⟩ := hnext task htask
      rcases hstage with hfresh | ⟨old, hold, hsame⟩
      · exact .inr hfresh
      · rw [hsame]
        exact h.own name old hends hclaimed (heq ▸ hold)
    · exact h.own name task hends hclaimed htask
  cancelled := h.cancelled
  named := by
    rw [htasks, Function.update_apply]
    split
    · rename_i heq
      exact hnamed heq.symm
    · exact h.named

theorem Lawful.touched (h : Lawful state claimedBy stage fits history world)
    {next : Option Task} (hrecord : world'.record = touch.record)
    (hhow : touch.record = world.record ∨ touch.how ≠ .looked ∧
      (state touch.record ≠ .cancelled → ∀ name, claimedBy touch.record = name → name ≠ "" →
        touch.party = .worker name))
    (htasks : world'.tasks = Function.update world.tasks touch.party next)
    (hnext : ∀ after ∈ next, fits touch.party after ∧
      (state touch.record).isFinished = false ∧ (stage after = .held →
        ∀ name, touch.party = .worker name → claimedBy touch.record = name))
    (hcancels : touch.how ≠ .looked → ∀ request, touch.party = .canceller request →
      state touch.record = .cancelled)
    (hnamed : touch.party ≠ .worker "") :
    Lawful state claimedBy stage fits (history ++ [touch]) world' where
  tasks other task htask := by
    rw [htasks, Function.update_apply] at htask
    rw [hrecord]
    split at htask
    · rename_i heq
      subst heq
      obtain ⟨hfits, hopen, hlease⟩ := hnext task htask
      exact ⟨hfits, .inr (Sees.now hopen hlease)⟩
    · rename_i hne
      obtain ⟨hfits, hstage⟩ := h.tasks other task htask
      refine ⟨hfits, hstage.imp_right fun hsees => hsees.concat (Ne.symm hne) ?_⟩
      exact hhow.imp_right fun hput => ⟨hput.1, rfl⟩
  own name task hends hclaimed htask := by
    rw [htasks, Function.update_apply] at htask
    rw [hrecord] at hends hclaimed ⊢
    split at htask
    · obtain ⟨-, hopen, -⟩ := hnext task htask
      rw [hopen] at hends
      cases hends
    · rename_i hne
      rcases hhow with hsame | ⟨-, hwriter⟩
      · rw [hsame] at hends hclaimed ⊢
        exact h.own name task hends hclaimed htask
      · by_cases hcancelled : state touch.record = .cancelled
        · exact .inl hcancelled
        · have hname : name ≠ "" := by
            rintro rfl
            rw [h.named] at htask
            cases htask
          exact absurd (hwriter hcancelled name hclaimed hname).symm hne
  cancelled put hput hhow request hparty := by
    rcases mem_append.mp hput with h' | h'
    · exact h.cancelled put h' hhow request hparty
    · rw [mem_singleton.mp h'] at hhow hparty ⊢
      exact hcancels hhow request hparty
  named := by
    rw [htasks, Function.update_apply]
    split
    · rename_i heq
      exact absurd heq.symm hnamed
    · exact h.named

/-! ## Steps and runs -/

theorem Unraced.front {touches more : List (Touch JobParty Record)}
    (h : Unraced state (touches ++ more)) : Unraced state touches := by
  intro past touch mid put rest hsplit
  exact h past touch mid put (rest ++ more) (by simp [hsplit])

/-- **Step lemma**: where nothing clashes, a step keeps the law and the invariant. -/
theorem Lawful.step (hleased : Leased state claimedBy program stage fits)
    (h : Lawful state claimedBy stage fits history world) {turn : Turn JobParty Answer}
    (hnamed : turn ≠ .enter (.worker "")) {out : List (Touch JobParty Record)}
    (hstep : (parties program).step world turn = some (out, world'))
    (hunraced : Unraced state (history ++ out)) :
    Lawful state claimedBy stage fits (history ++ out) world' ∧
      FinalStep state claimedBy ⟨world, turn, out, world'⟩ := by
  have hsame (hrecord : world'.record = world.record) (hout : ∀ put ∈ out, put.how = .looked) :
      FinalStep state claimedBy ⟨world, turn, out, world'⟩ :=
    ⟨fun _ => by rw [hrecord], fun put hput name _ hwrote => by
      rw [hout put hput] at hwrote
      cases hwrote⟩
  cases turned_of_step hstep with
  | @entered party hnone =>
    refine ⟨?_, hsame rfl (by simp)⟩
    rw [append_nil]
    obtain ⟨hfresh, hfits⟩ := hleased.begins party
    refine h.untouched rfl rfl ?_ fun heq => absurd (heq ▸ rfl) hnamed
    rintro after ⟨⟩
    exact ⟨hfits, .inl hfresh⟩
  | @looked party task answer next htask haccess =>
    refine ⟨?_, hsame rfl (by simp)⟩
    have hfits := (h.tasks party task htask).1
    refine h.touched rfl (.inl rfl) rfl ?_ (fun hhow => absurd rfl hhow) ?_
    · intro after hafter
      obtain ⟨hfits', hstage⟩ := hleased.looks hfits haccess hafter
      refine ⟨hfits', ?_⟩
      rcases hstage with ⟨-, hseen, hopen⟩ | ⟨hheld, -, hnot, name, rfl, hclaimed⟩
      · exact ⟨hopen, fun hheld => by simp [hseen] at hheld⟩
      · refine ⟨?_, fun _ name' hparty => by cases hparty; exact hclaimed⟩
        by_contra hends
        rcases h.own name task (by simpa using hends) hclaimed htask with hcancelled | hfresh
        · exact hnot hcancelled
        · simp [hfresh] at hheld
    · rintro rfl
      rw [h.named] at htask
      cases htask
  | @put party task answer how record next refused htask haccess =>
    obtain ⟨hfits, hstage⟩ := h.tasks party task htask
    have hends (hhow : how ≠ .looked) (hstale : stage task ≠ .fresh)
        (hends : (state world.record).isFinished = true) : state record = state world.record := by
      rcases (hstage.resolve_left hstale).unraced hunraced hhow rfl with
        ⟨hopen, -⟩ | ⟨between, -, hput, hrecord, -, hclash⟩
      · rw [hopen] at hends
        cases hends
      · by_contra hne
        rw [← hrecord] at hends hne
        exact hclash ⟨hput, .inl ⟨hends, fun heq => hne heq.symm⟩⟩
    cases party with
    | canceller request =>
      obtain ⟨hseen, rfl, hcancelled, rfl, rfl⟩ := hleased.cancels hfits haccess
      refine ⟨h.touched rfl (.inr ⟨by simp, fun hnot => absurd hcancelled hnot⟩) rfl (by simp)
        (fun _ _ _ => hcancelled) (by simp), hends (by simp) (by simp [hseen]), ?_⟩
      intro put hput name hparty
      rw [mem_singleton.mp hput] at hparty
      cases hparty
    | worker name =>
      obtain ⟨hwhen, hnot, hclaimed, hnext, -⟩ := hleased.puts hfits haccess
      have hhow : how ≠ .looked := by
        rcases hwhen with ⟨-, rfl, -⟩ | ⟨-, rfl⟩ <;> simp
      have hstale : stage task ≠ .fresh := by
        rcases hwhen with ⟨hat, -, -⟩ | ⟨hat, -⟩ <;> simp [hat]
      refine ⟨h.touched rfl (.inr ⟨hhow, ?_⟩) rfl ?_ (fun _ _ hparty => by cases hparty) ?_,
        hends hhow hstale, ?_⟩
      · intro _ other hother hne
        rcases hclaimed with hclaimed | hclaimed
        · rw [← hother, hclaimed]
        · exact absurd (hother.symm.trans hclaimed) hne
      · intro after hafter
        obtain ⟨hfits', -, hopen, hlease⟩ := hnext after hafter
        exact ⟨hfits', hopen, fun _ other hother => by cases hother; exact hlease⟩
      · intro heq
        have hname : JobParty.worker name = .worker "" := heq
        rw [hname, h.named] at htask
        cases htask
      · intro put hput other hparty hwrote
        rw [mem_singleton.mp hput] at hparty hwrote
        cases hparty
        rcases hwhen with ⟨-, htook, -⟩ | ⟨hheld, -⟩
        · exact absurd (htook.symm.trans hwrote) (by simp)
        rcases (hstage.resolve_left hstale).unraced hunraced hhow rfl with
          ⟨-, hlease⟩ | ⟨between, hmem, hbetween, -, -, hclash⟩
        · exact hlease hheld name rfl
        · -- another worker's write clashes, and so does a cancellation
          cases hby : between.party with
          | worker other =>
            exact absurd ⟨hbetween, .inr ⟨hwrote, ⟨name, rfl⟩, other, hby⟩⟩ hclash
          | canceller request =>
            have hcancelled := h.cancelled between hmem hbetween request hby
            have hends : (state between.record).isFinished = true := by
              simp [hcancelled, JobState.isFinished]
            refine absurd ⟨hbetween, .inl ⟨hends, ?_⟩⟩ hclash
            rw [hcancelled]
            exact hnot.symm
  | @worked party task answer does htask haccess =>
    refine ⟨?_, hsame rfl (by simp)⟩
    rw [append_nil]
    refine h.untouched rfl rfl ?_ ?_
    · intro after hafter
      obtain ⟨hfits, hstage⟩ := hleased.works (h.tasks party task htask).1 haccess hafter
      exact ⟨hfits, .inr ⟨task, htask, hstage⟩⟩
    · rintro rfl
      rw [h.named] at htask
      cases htask
  | @refused party task how record next refused htask haccess =>
    refine ⟨?_, hsame rfl (by simp)⟩
    rw [append_nil]
    have hfits := (h.tasks party task htask).1
    refine h.untouched rfl rfl ?_ ?_
    · intro after hafter
      cases party with
      | canceller request =>
        obtain ⟨-, -, -, -, rfl⟩ := hleased.cancels hfits haccess
        cases hafter
      | worker name =>
        obtain ⟨hwhen, -, -, -, hrefused⟩ := hleased.puts hfits haccess
        obtain ⟨hfits', hheld⟩ := hrefused after hafter
        rcases hwhen with ⟨-, -, rfl⟩ | ⟨hat, -⟩
        · cases hafter
        · exact ⟨hfits', .inr ⟨task, htask, hheld.trans hat.symm⟩⟩
    · rintro rfl
      rw [h.named] at htask
      cases htask
  | @crashed party task htask =>
    refine ⟨?_, hsame rfl (by simp)⟩
    rw [append_nil]
    exact h.untouched rfl rfl (by simp) fun _ => rfl

end

end Aiwatcher.Jobs
