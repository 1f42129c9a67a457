import Mathlib.Algebra.GroupWithZero.Nat
import Mathlib.Data.List.Basic

/-!
# Aiwatcher.Library.Machine

Deterministic machines that may refuse an input.  A refused input leaves the
state alone and no step behind, so a run over *any* list of inputs is a run over
the accepted ones among them.

* `run` — the steps taken, each with the state it was taken in, its outputs and
  the state it reached;
* `last` — the state the run ends in.

Eight induction rules cover what is proved of runs: an invariant of the states
(`inv_of_mem_run`), a fact about every step (`forall_run`), a relation between
everything emitted so far and the state (`accum_run`) or the steps taken so far and the state
(`record_run`), what the steps take in and give out, by
number (`balance_run`) and by name (`exchange_run`), a relation between two runs
(`compare_run`), and one between two machines (`emitted_lockstep`).

Noninterference by unwinding.  An observer is a set of inputs, `low`, which may depend
on the state an input arrives in.  Where every low step looks the same from two related
states, and every other step stays related to the state it leaves alone, what the
observer is told in a run is what it is told in the run of its own inputs
(`emitted_purge`).
-/

namespace Aiwatcher.Library

open List

/-- One accepted input: the state before it, what it produced, the state after. -/
structure Step (σ ι ο : Type) where
  before : σ
  input : ι
  out : List ο
  after : σ
  deriving DecidableEq

/-- A deterministic machine; `none` refuses the input. -/
structure Machine (σ ι ο : Type) where
  step : σ → ι → Option (List ο × σ)

namespace Machine

variable {σ ι ο : Type} (M : Machine σ ι ο)

/-- The steps a list of inputs takes, refused inputs left out. -/
def run : σ → List ι → List (Step σ ι ο)
  | _, [] => []
  | s, i :: is =>
    match M.step s i with
    | none => run s is
    | some (out, s') => ⟨s, i, out, s'⟩ :: run s' is

/-- The state a list of inputs leads to. -/
def last : σ → List ι → σ
  | s, [] => s
  | s, i :: is =>
    match M.step s i with
    | none => last s is
    | some (_, s') => last s' is

/-- Everything a list of inputs makes the machine emit, in order. -/
def emitted (s : σ) (is : List ι) : List ο := (M.run s is).flatMap (·.out)

/-- No input of the list is refused. -/
def accepts : σ → List ι → Bool
  | _, [] => true
  | s, i :: is =>
    match M.step s i with
    | none => false
    | some (_, s') => accepts s' is

variable {M}

variable {i : ι} {is : List ι} {out : List ο} {s : σ} {st : Step σ ι ο}

theorem run_cons_none (h : M.step s i = none) (is : List ι) : M.run s (i :: is) = M.run s is := by
  simp [run, h]

theorem run_cons_some {s s' : σ} (h : M.step s i = some (out, s')) (is : List ι) :
    M.run s (i :: is) = ⟨s, i, out, s'⟩ :: M.run s' is := by
  simp [run, h]

theorem last_cons_none (h : M.step s i = none) (is : List ι) :
    M.last s (i :: is) = M.last s is := by
  simp [last, h]

theorem last_cons_some {s s' : σ} (h : M.step s i = some (out, s')) (is : List ι) :
    M.last s (i :: is) = M.last s' is := by
  simp [last, h]

theorem last_append (s : σ) (is js : List ι) : M.last s (is ++ js) = M.last (M.last s is) js := by
  induction is generalizing s with
  | nil => rfl
  | cons i is ih =>
    cases h : M.step s i with
    | none => rw [cons_append, last_cons_none h, last_cons_none h, ih]
    | some p => rw [cons_append, last_cons_some h, last_cons_some h, ih]

theorem run_append (s : σ) (is js : List ι) :
    M.run s (is ++ js) = M.run s is ++ M.run (M.last s is) js := by
  induction is generalizing s with
  | nil => rfl
  | cons i is ih =>
    cases h : M.step s i with
    | none => rw [cons_append, run_cons_none h, run_cons_none h, last_cons_none h, ih]
    | some p =>
      rw [cons_append, run_cons_some h, run_cons_some h, last_cons_some h, ih, cons_append]

theorem emitted_append (s : σ) (is js : List ι) :
    M.emitted s (is ++ js) = M.emitted s is ++ M.emitted (M.last s is) js := by
  rw [emitted, run_append, flatMap_append]
  rfl

theorem run_singleton {s s' : σ} (h : M.step s i = some (out, s')) :
    M.run s [i] = [⟨s, i, out, s'⟩] := by
  simp [run, h]

/-- A run that is cut in two is two runs, of two parts of the inputs. -/
theorem exists_split_run {xs ys : List (Step σ ι ο)} (h : M.run s is = xs ++ ys) :
    ∃ is₁ is₂, is = is₁ ++ is₂ ∧ M.run s is₁ = xs ∧ M.run (M.last s is₁) is₂ = ys := by
  induction is generalizing s xs with
  | nil =>
    obtain ⟨rfl, rfl⟩ := append_eq_nil_iff.mp h.symm
    exact ⟨[], [], rfl, rfl, rfl⟩
  | cons i is ih =>
    cases xs with
    | nil => exact ⟨[], i :: is, rfl, rfl, h⟩
    | cons x xs =>
      cases hs : M.step s i with
      | none =>
        rw [run_cons_none hs] at h
        obtain ⟨is₁, is₂, rfl, hxs, hys⟩ := ih h
        exact ⟨i :: is₁, is₂, rfl, by rw [run_cons_none hs, hxs], by
          rw [last_cons_none hs, hys]⟩
      | some p =>
        rw [run_cons_some hs, cons_append, List.cons.injEq] at h
        obtain ⟨rfl, h⟩ := h
        obtain ⟨is₁, is₂, rfl, hxs, hys⟩ := ih h
        exact ⟨i :: is₁, is₂, rfl, by rw [run_cons_some hs, hxs], by
          rw [last_cons_some hs, hys]⟩

theorem before_of_run_cons {rest : List (Step σ ι ο)} (h : M.run s is = st :: rest) :
    st.before = s := by
  induction is with
  | nil => simp [run] at h
  | cons i is ih =>
    cases hs : M.step s i with
    | none => rw [run_cons_none hs] at h; exact ih h
    | some p =>
      rw [run_cons_some hs, List.cons.injEq] at h
      rw [← h.1]

theorem last_of_run_nil (h : M.run s is = []) : M.last s is = s := by
  induction is with
  | nil => rfl
  | cons i is ih =>
    cases hs : M.step s i with
    | none => rw [run_cons_none hs] at h; rw [last_cons_none hs, ih h]
    | some p => simp [run_cons_some hs] at h

theorem last_of_run_singleton (h : M.run s is = [st]) : M.last s is = st.after := by
  induction is with
  | nil => simp [run] at h
  | cons i is ih =>
    cases hs : M.step s i with
    | none => rw [run_cons_none hs] at h; rw [last_cons_none hs, ih h]
    | some p =>
      rw [run_cons_some hs, List.cons.injEq] at h
      rw [last_cons_some hs, ← h.1, last_of_run_nil h.2]

theorem exists_rest_of_run {xs ys : List (Step σ ι ο)} (h : M.run s is = xs ++ st :: ys) :
    ∃ js, M.run st.after js = ys ∧ M.last st.after js = M.last s is := by
  have hcut : M.run s is = (xs ++ [st]) ++ ys := by rw [h, append_assoc, singleton_append]
  obtain ⟨is₁, is₂, rfl, hfront, hrest⟩ := exists_split_run hcut
  obtain ⟨is₃, is₄, rfl, -, hst⟩ := exists_split_run hfront
  have hlast : M.last s (is₃ ++ is₄) = st.after := by
    rw [last_append, last_of_run_singleton hst]
  rw [hlast] at hrest
  exact ⟨is₂, hrest, by rw [last_append, hlast]⟩

theorem step_of_mem_run (h : st ∈ M.run s is) :
    M.step st.before st.input = some (st.out, st.after) := by
  induction is generalizing s with
  | nil => simp [run] at h
  | cons i is ih =>
    cases hs : M.step s i with
    | none => rw [run_cons_none hs] at h; exact ih h
    | some p =>
      obtain ⟨out, s'⟩ := p
      rw [run_cons_some hs, mem_cons] at h
      rcases h with rfl | h
      · exact hs
      · exact ih h

/-- A run accepts nothing that was not delivered. -/
theorem input_mem_of_mem_run (h : st ∈ M.run s is) : st.input ∈ is := by
  induction is generalizing s with
  | nil => simp [run] at h
  | cons i is ih =>
    cases hs : M.step s i with
    | none =>
      rw [run_cons_none hs] at h
      exact mem_cons_of_mem _ (ih h)
    | some p =>
      obtain ⟨out, s'⟩ := p
      rw [run_cons_some hs, mem_cons] at h
      rcases h with rfl | h
      · exact mem_cons_self
      · exact mem_cons_of_mem _ (ih h)

/-- **Invariant rule**: what the first state satisfies and every admitted step
keeps, every state of the run satisfies. -/
theorem inv_of_mem_run (Inv : σ → Prop) (Admits : σ → ι → Prop)
    (hstep : ∀ s i out s', Inv s → Admits s i → M.step s i = some (out, s') → Inv s')
    {s : σ} {is : List ι} (h0 : Inv s) (hadm : ∀ st ∈ M.run s is, Admits st.before st.input) :
    ∀ st ∈ M.run s is, Inv st.before ∧ Inv st.after := by
  induction is generalizing s with
  | nil => intro st hst; simp [run] at hst
  | cons i is ih =>
    cases hs : M.step s i with
    | none =>
      rw [run_cons_none hs] at hadm ⊢
      exact ih h0 hadm
    | some p =>
      obtain ⟨out, s'⟩ := p
      rw [run_cons_some hs] at hadm ⊢
      have h1 : Inv s' := hstep s i out s' h0 (hadm _ mem_cons_self) hs
      intro st hst
      rcases mem_cons.mp hst with rfl | hst
      · exact ⟨h0, h1⟩
      · exact ih h1 (fun st hst => hadm st (mem_cons_of_mem _ hst)) st hst

variable (Inv : σ → Prop)

/-- **Reachability rule**: an invariant every step keeps holds where a run ends. -/
theorem inv_last (hstep : ∀ s i out s', Inv s → M.step s i = some (out, s') → Inv s') (h0 : Inv s)
    (is : List ι) : Inv (M.last s is) := by
  induction is generalizing s with
  | nil => exact h0
  | cons i is ih =>
    cases hs : M.step s i with
    | none => rw [last_cons_none hs]; exact ih h0
    | some p => rw [last_cons_some hs]; exact ih (hstep s i p.1 p.2 h0 hs)

/-- **Reachability rule**, of admitted steps. -/
theorem inv_last_of_admits (Admits : σ → ι → Prop)
    (hstep : ∀ s i out s', Inv s → Admits s i → M.step s i = some (out, s') → Inv s') (h0 : Inv s)
    (hadm : ∀ st ∈ M.run s is, Admits st.before st.input) : Inv (M.last s is) := by
  induction is generalizing s with
  | nil => exact h0
  | cons i is ih =>
    cases hs : M.step s i with
    | none =>
      rw [run_cons_none hs] at hadm
      rw [last_cons_none hs]
      exact ih h0 hadm
    | some p =>
      rw [run_cons_some hs, forall_mem_cons] at hadm
      rw [last_cons_some hs]
      exact ih (hstep s i p.1 p.2 h0 hadm.1 hs) hadm.2

/-- **Balance rule**: where every step balances what it takes in and gives out with the level
of its states, a run does. -/
theorem balance_run
    (hinv : ∀ s i out s', Inv s → M.step s i = some (out, s') → Inv s')
    (level : σ → Nat) (gain loss : Step σ ι ο → Nat)
    (hstep : ∀ st, Inv st.before → M.step st.before st.input = some (st.out, st.after) →
      level st.before + gain st = level st.after + loss st) (h0 : Inv s) (is : List ι) :
    level s + ((M.run s is).map gain).sum =
      level (M.last s is) + ((M.run s is).map loss).sum := by
  induction is generalizing s with
  | nil => rfl
  | cons i is ih =>
    cases hs : M.step s i with
    | none => rw [run_cons_none hs, last_cons_none hs]; exact ih h0
    | some p =>
      obtain ⟨out, s'⟩ := p
      have hfirst : level s + gain ⟨s, i, out, s'⟩ = level s' + loss ⟨s, i, out, s'⟩ :=
        hstep ⟨s, i, out, s'⟩ h0 hs
      have hrest := ih (hinv s i out s' h0 hs)
      rw [run_cons_some hs, last_cons_some hs, map_cons, map_cons, sum_cons, sum_cons]
      omega

/-- **Step rule**: under an invariant every step keeps, a fact about single steps
holds of every step of a run. -/
theorem forall_run (hstep : ∀ s i out s', Inv s → M.step s i = some (out, s') → Inv s')
    {P : Step σ ι ο → Prop}
    (hP : ∀ st, Inv st.before → M.step st.before st.input = some (st.out, st.after) → P st)
    (h0 : Inv s) (is : List ι) : ∀ st ∈ M.run s is, P st := by
  intro st hst
  have hinv := inv_of_mem_run Inv (fun _ _ => True) (fun s i out s' h _ => hstep s i out s' h)
    h0 (fun _ _ => trivial) st hst
  exact hP st hinv.1 (step_of_mem_run hst)

/-- **History rule**: a relation between everything emitted so far and the state,
kept by every admitted step, holds where the run ends. -/
theorem accum_run (P : List ο → σ → Prop) (Admits : σ → ι → Prop)
    (hstep : ∀ h s i out s', P h s → Admits s i → M.step s i = some (out, s') → P (h ++ out) s')
    {h : List ο} (hP : P h s) (hadm : ∀ st ∈ M.run s is, Admits st.before st.input) :
    P (h ++ M.emitted s is) (M.last s is) := by
  induction is generalizing h s with
  | nil => simpa [emitted, run, last] using hP
  | cons i is ih =>
    cases hs : M.step s i with
    | none =>
      rw [run_cons_none hs] at hadm
      simpa only [emitted, run_cons_none hs, last_cons_none hs] using ih hP hadm
    | some p =>
      obtain ⟨out, s'⟩ := p
      rw [run_cons_some hs] at hadm
      have h1 := ih (hstep h s i out s' hP (hadm _ mem_cons_self) hs)
        (fun st hst => hadm st (mem_cons_of_mem _ hst))
      simpa only [emitted, run_cons_some hs, last_cons_some hs, flatMap_cons, append_assoc] using h1

/-- **Record rule**: a relation between the steps taken so far and the state, kept by every
admitted step, holds where the run ends. -/
theorem record_run (P : List (Step σ ι ο) → σ → Prop) (Admits : σ → ι → Prop)
    (hstep : ∀ past st, P past st.before → Admits st.before st.input →
      M.step st.before st.input = some (st.out, st.after) → P (past ++ [st]) st.after)
    {past : List (Step σ ι ο)} (hP : P past s)
    (hadm : ∀ st ∈ M.run s is, Admits st.before st.input) :
    P (past ++ M.run s is) (M.last s is) := by
  induction is generalizing past s with
  | nil => simpa [run, last] using hP
  | cons i is ih =>
    cases hs : M.step s i with
    | none =>
      rw [run_cons_none hs] at hadm
      simpa only [run_cons_none hs, last_cons_none hs] using ih hP hadm
    | some p =>
      obtain ⟨out, s'⟩ := p
      rw [run_cons_some hs] at hadm
      have hone := hstep past ⟨s, i, out, s'⟩ hP (hadm _ mem_cons_self) hs
      have hrest := ih hone fun st hst => hadm st (mem_cons_of_mem _ hst)
      simpa only [run_cons_some hs, last_cons_some hs, append_assoc, singleton_append] using hrest

theorem accepts_cons (h : M.accepts s (i :: is) = true) :
    ∃ out s', M.step s i = some (out, s') ∧ M.accepts s' is = true := by
  rw [accepts] at h
  split at h
  · cases h
  · exact ⟨_, _, ‹_›, h⟩

theorem accepts_concat {s s' : σ} (h : M.accepts s is = true)
    (hstep : M.step (M.last s is) i = some (out, s')) : M.accepts s (is ++ [i]) = true := by
  induction is generalizing s with
  | nil =>
    have hstep : M.step s i = some (out, s') := hstep
    simp [accepts, hstep]
  | cons j js ih =>
    obtain ⟨out', s'', hj, hjs⟩ := accepts_cons h
    rw [last_cons_some hj] at hstep
    rw [cons_append, accepts, hj]
    exact ih hjs hstep

/-- **Comparison rule**: a run with all its inputs beside a run without those of one
kind.  A relation between the two histories and the two states, kept when the first
run takes an input alone and when both take it, holds where the runs end. -/
theorem compare_run (alone : ι → Bool) (R : List ο → σ → List ο → σ → Prop)
    (Admits : Step σ ι ο → Prop)
    (halone : ∀ h k u st, R h st.before k u → Admits st → alone st.input = true →
      M.step st.before st.input = some (st.out, st.after) → R (h ++ st.out) st.after k u)
    (hboth : ∀ h k u st out u', R h st.before k u → Admits st → alone st.input = false →
      M.step st.before st.input = some (st.out, st.after) → M.step u st.input = some (out, u') →
      R (h ++ st.out) st.after (k ++ out) u')
    {h k : List ο} {s u : σ} {is : List ι} (hR : R h s k u) (hadm : ∀ st ∈ M.run s is, Admits st)
    (hs : M.accepts s is = true) (hu : M.accepts u (is.filter fun i => !alone i) = true) :
    R (h ++ M.emitted s is) (M.last s is) (k ++ M.emitted u (is.filter fun i => !alone i))
      (M.last u (is.filter fun i => !alone i)) := by
  induction is generalizing h k s u with
  | nil => simpa [emitted, run, last] using hR
  | cons i is ih =>
    obtain ⟨out, s', hstep, hs⟩ := accepts_cons hs
    rw [run_cons_some hstep, forall_mem_cons] at hadm
    rw [emitted, run_cons_some hstep, last_cons_some hstep, flatMap_cons, ← append_assoc]
    cases hi : alone i with
    | true =>
      rw [filter_cons_of_neg (by simp [hi])] at hu ⊢
      exact ih (halone h k u ⟨s, i, out, s'⟩ hR hadm.1 hi hstep) hadm.2 hs hu
    | false =>
      rw [filter_cons_of_pos (by simp [hi])] at hu ⊢
      obtain ⟨out', u', hstep', hu⟩ := accepts_cons hu
      rw [emitted, run_cons_some hstep', last_cons_some hstep', flatMap_cons, ← append_assoc]
      exact ih (hboth h k u ⟨s, i, out, s'⟩ out' u' hR hadm.1 hi hstep hstep') hadm.2 hs hu

/-- **Lockstep rule**: two machines that refuse the same inputs and emit the same from
related states, and stay related, emit the same in a whole run. -/
theorem emitted_lockstep {τ : Type} {N : Machine τ ι ο} (R : σ → τ → Prop) (Admits : σ → ι → Prop)
    (hnone : ∀ s t i, R s t → M.step s i = none → N.step t i = none)
    (hsome : ∀ s t i out s', R s t → Admits s i → M.step s i = some (out, s') →
      ∃ t', N.step t i = some (out, t') ∧ R s' t') {t : τ} (hR : R s t) (hadm : ∀ st ∈ M.run s is, Admits st.before st.input) :
    N.emitted t is = M.emitted s is := by
  induction is generalizing s t with
  | nil => rfl
  | cons i is ih =>
    cases hs : M.step s i with
    | none =>
      rw [run_cons_none hs] at hadm
      simpa only [emitted, run_cons_none hs, run_cons_none (hnone s t i hR hs)] using ih hR hadm
    | some p =>
      obtain ⟨out, s'⟩ := p
      rw [run_cons_some hs, forall_mem_cons] at hadm
      obtain ⟨t', ht, hR'⟩ := hsome s t i out s' hR hadm.1 hs
      have htail := ih hR' hadm.2
      simp only [emitted] at htail
      simp only [emitted, run_cons_some hs, run_cons_some ht, flatMap_cons, htail]

end Machine

namespace Machine

variable {σ ι ο : Type} (M : Machine σ ι ο) (low : σ → ι → Bool)

/-- The inputs an observer makes in a run, everybody else's left out. -/
def purge : σ → List ι → List ι
  | _, [] => []
  | s, i :: is =>
    match M.step s i with
    | none => purge s is
    | some (_, s') => if low s i then i :: purge s' is else purge s' is

/-- What an observer is told in a run. -/
def told (s : σ) (is : List ι) : List ο :=
  ((M.run s is).filter fun st => low st.before st.input).flatMap (·.out)

/-- A relation between the state of a run and that of the observer's own run. -/
structure Unwinds (Admits : σ → ι → Prop) (R : σ → σ → Prop) : Prop where
  own : ∀ {s u i out s'}, R s u → Admits s i → low s i = true → M.step s i = some (out, s') →
    ∃ u', M.step u i = some (out, u') ∧ R s' u'
  other : ∀ {s u i out s'}, R s u → Admits s i → low s i = false → M.step s i = some (out, s') →
    R s' u

variable {M low}

/-- **Unwinding rule**: an observer is told what it is told in the run of its own inputs. -/
theorem emitted_purge {Admits : σ → ι → Prop} {R : σ → σ → Prop} (h : M.Unwinds low Admits R)
    {s u : σ} {is : List ι} (hR : R s u) (hadm : ∀ st ∈ M.run s is, Admits st.before st.input) :
    M.told low s is = M.emitted u (M.purge low s is) := by
  induction is generalizing s u with
  | nil => rfl
  | cons i is ih =>
    cases hs : M.step s i with
    | none =>
      simp only [told, purge, run_cons_none hs, hs] at hadm ⊢
      exact ih hR hadm
    | some p =>
      obtain ⟨out, s'⟩ := p
      rw [run_cons_some hs, forall_mem_cons] at hadm
      simp only [told, purge, run_cons_some hs, hs]
      cases hlow : low s i with
      | true =>
        obtain ⟨u', hu, hR'⟩ := h.own hR hadm.1 hlow hs
        have htail := ih hR' hadm.2
        simp only [told] at htail
        simp [hlow, htail, emitted, run_cons_some hu]
      | false =>
        have htail := ih (h.other hR hadm.1 hlow hs) hadm.2
        simp only [told] at htail
        simp [hlow, htail]

end Machine

end Aiwatcher.Library
