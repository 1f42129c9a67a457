/-!
# Aiwatcher.Library.Programs

Programs that reach a state others share in single accesses, each of which reads the state and may
change it (`Prog`).  Run alone a program is a function of the state (`run`); among others it keeps
what each of its accesses keeps (`Keeps`); and one that dies leaves what its accesses so far made
of the state (`front`).
-/

namespace Aiwatcher.Library

open List

/-- What is left of a program: its result, or its next access, and what follows what that read. -/
inductive Prog (σ α : Type) where
  | done (result : α)
  | access (change : σ → σ) (next : σ → Prog σ α)

namespace Prog

variable {σ α β : Type}

def read (look : σ → α) : Prog σ α := .access id fun s => .done (look s)

def write (change : σ → σ) : Prog σ Unit := .access change fun _ => .done ()

def bind : Prog σ α → (α → Prog σ β) → Prog σ β
  | done result, f => f result
  | access change next, f => access change fun s => (next s).bind f

instance : Monad (Prog σ) where
  pure := done
  bind := bind

theorem bind_done (p : Prog σ α) : p.bind done = p := by
  induction p with
  | done result => rfl
  | access change next ih => exact congrArg (access change) (funext ih)

theorem bind_bind {γ : Type} (p : Prog σ α) (f : α → Prog σ β) (g : β → Prog σ γ) :
    (p.bind f).bind g = p.bind fun a => (f a).bind g := by
  induction p with
  | done result => rfl
  | access change next ih => exact congrArg (access change) (funext ih)

instance : LawfulMonad (Prog σ) := LawfulMonad.mk' (Prog σ) bind_done (fun _ _ => rfl) bind_bind

/-! ## Alone -/

def run : Prog σ α → σ → α × σ
  | done result, s => (result, s)
  | access change next, s => (next s).run (change s)

@[simp] theorem run_pure (a : α) (s : σ) : (pure a : Prog σ α).run s = (a, s) := rfl

variable (look : σ → α)

@[simp] theorem run_read (s : σ) : (read look).run s = (look s, s) := rfl

@[simp] theorem run_write (change : σ → σ) (s : σ) : (write change).run s = ((), change s) := rfl

@[simp] theorem run_bind (p : Prog σ α) (f : α → Prog σ β) (s : σ) :
    (p >>= f).run s = (f (p.run s).1).run (p.run s).2 := by
  induction p generalizing s with
  | done result => rfl
  | access change next ih => exact ih s (change s)

@[simp] theorem run_map (f : α → β) (p : Prog σ α) (s : σ) :
    (f <$> p).run s = (f (p.run s).1, (p.run s).2) := by
  rw [map_eq_pure_bind, run_bind, run_pure]

theorem run_foldlM (f : β → α → Prog σ β) (xs : List α) (b : β) (s : σ) :
    (xs.foldlM f b).run s = xs.foldl (fun done x => (f done.1 x).run done.2) (b, s) := by
  induction xs generalizing b s with
  | nil => rfl
  | cons x xs ih => rw [foldlM_cons, run_bind, ih, foldl_cons]

theorem run_forM (f : α → Prog σ Unit) (xs : List α) (s : σ) :
    (xs.forM f).run s = ((), xs.foldl (fun s x => ((f x).run s).2) s) := by
  induction xs generalizing s with
  | nil => rfl
  | cons x xs ih => rw [forM_eq_forM, forM_cons, run_bind, ← forM_eq_forM, ih]; rfl

theorem run_mapM_read (look : α → σ → β) (xs : List α) (s : σ) :
    (xs.mapM fun x => read (look x)).run s = (xs.map fun x => look x s, s) := by
  induction xs with
  | nil => rfl
  | cons x xs ih => simp only [mapM_cons, run_bind, run_read, run_pure, ih, map_cons]

variable {f : α → Prog σ β} {n : Nat} {p : Prog σ α} {s : σ}

/-- **What a loop sees to**, round by round: every round keeps `I`, goes along `R`, and sees
to a `Q` of its own, which stays seen to along `R`. -/
theorem foldlM_sees {I : σ → Prop} {R : σ → σ → Prop} {Q : α → σ → Prop}
    {f : β → α → Prog σ β} (hrefl : ∀ s, R s s)
    (htrans : ∀ s t u, R s t → R t u → R s u)
    (hseen : ∀ x s t, R s t → Q x s → Q x t) {xs : List α}
    (hround : ∀ x ∈ xs, ∀ b t, I t → R s t → I ((f b x).run t).2 ∧
      R t ((f b x).run t).2 ∧ Q x ((f b x).run t).2) (b : β) (hs : I s) :
    I ((xs.foldlM f b).run s).2 ∧ R s ((xs.foldlM f b).run s).2 ∧
      ∀ x ∈ xs, Q x ((xs.foldlM f b).run s).2 := by
  induction xs generalizing b s with
  | nil => exact ⟨hs, hrefl s, by simp⟩
  | cons x xs ih =>
    rw [foldlM_cons, run_bind]
    obtain ⟨hinv, halong, hx⟩ := hround x mem_cons_self b s hs (hrefl s)
    obtain ⟨hinv', halong', hxs⟩ := ih (fun y hy b t ht hst =>
      hround y (mem_cons_of_mem _ hy) b t ht (htrans _ _ _ halong hst))
      ((f b x).run s).1 hinv
    refine ⟨hinv', htrans _ _ _ halong halong', fun y hy => ?_⟩
    rcases mem_cons.mp hy with rfl | hy
    · exact hseen y _ _ halong' hx
    · exact hxs y hy

/-! ## Among others -/

/-- Every access keeps a property of the state, whatever others do that keep it. -/
def Keeps (P : σ → Prop) : Prog σ α → Prop
  | done _ => True
  | access change next => ∀ s, P s → P (change s) ∧ (next s).Keeps P

section Keeps

variable {P : σ → Prop}

theorem keeps_pure (a : α) : (pure a : Prog σ α).Keeps P := trivial

theorem keeps_read (look : σ → α) : (read look).Keeps P := fun _ hs => ⟨hs, trivial⟩

theorem keeps_write {change : σ → σ} (h : ∀ s, P s → P (change s)) : (write change).Keeps P :=
  fun s hs => ⟨h s hs, trivial⟩

theorem Keeps.bind {p : Prog σ α} {f : α → Prog σ β} (hp : p.Keeps P) (hf : ∀ a, (f a).Keeps P) :
    (p >>= f).Keeps P := by
  induction p with
  | done result => exact hf result
  | access change next ih => exact fun s hs => ⟨(hp s hs).1, ih s (hp s hs).2⟩

theorem keeps_foldlM {f : β → α → Prog σ β} (h : ∀ b x, (f b x).Keeps P) (xs : List α) (b : β) :
    (xs.foldlM f b).Keeps P := by
  induction xs generalizing b with
  | nil => exact keeps_pure b
  | cons x xs ih =>
    rw [foldlM_cons]
    exact (h b x).bind ih

theorem keeps_forM {f : α → Prog σ Unit} (h : ∀ x, (f x).Keeps P) (xs : List α) :
    (xs.forM f).Keeps P := by
  induction xs with
  | nil => exact keeps_pure ()
  | cons x xs ih =>
    rw [forM_eq_forM, forM_cons]
    exact (h x).bind fun _ => ih

theorem keeps_mapM {f : α → Prog σ β} (h : ∀ x, (f x).Keeps P) (xs : List α) :
    (xs.mapM f).Keeps P := by
  induction xs with
  | nil => exact keeps_pure []
  | cons x xs ih =>
    rw [mapM_cons]
    exact (h x).bind fun b => ih.bind fun bs => keeps_pure (b :: bs)

theorem Keeps.run {p : Prog σ α} (h : p.Keeps P) {s : σ} (hs : P s) : P (p.run s).2 := by
  induction p generalizing s with
  | done result => exact hs
  | access change next ih => exact ih s (h s hs).2 (h s hs).1

end Keeps

/-- Every access goes along a relation, whatever state it finds. -/
def Within (R : σ → σ → Prop) : Prog σ α → Prop
  | done _ => True
  | access change next => ∀ s, R s (change s) ∧ (next s).Within R

section Within

variable {R : σ → σ → Prop}

theorem within_pure (a : α) : (pure a : Prog σ α).Within R := trivial

theorem within_write {change : σ → σ} (h : ∀ s, R s (change s)) : (write change).Within R :=
  fun s => ⟨h s, trivial⟩

theorem Within.bind {p : Prog σ α} {f : α → Prog σ β} (hp : p.Within R)
    (hf : ∀ a, (f a).Within R) : (p >>= f).Within R := by
  induction p with
  | done result => exact hf result
  | access change next ih => exact fun s => ⟨(hp s).1, ih s (hp s).2⟩

end Within

/-- Whatever a program reads, its result has a property. -/
def Returns (P : α → Prop) : Prog σ α → Prop
  | done result => P result
  | access _ next => ∀ s, (next s).Returns P

theorem Returns.bind {P : β → Prop} {Q : α → Prop} (hp : p.Returns Q)
    (hf : ∀ a, Q a → (f a).Returns P) : (p >>= f).Returns P := by
  induction p with
  | done result => exact hf result hp
  | access change next ih => exact fun s => ih s (hp s)

theorem returns_of_forall {P : α → Prop} (h : ∀ a, P a) (p : Prog σ α) : p.Returns P := by
  induction p with
  | done result => exact h result
  | access change next ih => exact fun s => ih s

/-- The next access, and what is left behind it. -/
def turn : Prog σ α → σ → Prog σ α × σ
  | done result, s => (done result, s)
  | access change next, s => (next s, change s)

/-! ## Cut off -/

/-- What a program that dies after so many accesses leaves. -/
def front : Nat → Prog σ α → σ → σ
  | 0, _, s => s
  | _ + 1, done _, s => s
  | n + 1, access change next, s => (next s).front n (change s)

@[simp] theorem front_zero (p : Prog σ α) (s : σ) : p.front 0 s = s := by
  cases p <;> rfl

theorem front_pure (n : Nat) (a : α) (s : σ) : (pure a : Prog σ α).front n s = s := by
  cases n <;> rfl

theorem front_read_bind (n : Nat) (look : σ → α) (f : α → Prog σ β) (s : σ) :
    (read look >>= f).front (n + 1) s = (f (look s)).front n s := rfl

theorem front_write_bind (n : Nat) (change : σ → σ) (f : Unit → Prog σ β) (s : σ) :
    (write change >>= f).front (n + 1) s = (f ()).front n (change s) := rfl

/-- How many accesses a program makes alone. -/
def accesses : Prog σ α → σ → Nat
  | done _, _ => 0
  | access change next, s => (next s).accesses (change s) + 1

@[simp] theorem accesses_pure (a : α) (s : σ) : (pure a : Prog σ α).accesses s = 0 := rfl

@[simp] theorem accesses_read (s : σ) : (read look).accesses s = 1 := rfl

@[simp] theorem accesses_write (change : σ → σ) (s : σ) : (write change).accesses s = 1 := rfl

@[simp] theorem accesses_bind (p : Prog σ α) (f : α → Prog σ β) (s : σ) :
    (p >>= f).accesses s = p.accesses s + (f (p.run s).1).accesses (p.run s).2 := by
  induction p generalizing s with
  | done result => exact (Nat.zero_add _).symm
  | access change next ih =>
    have hrest := ih s (change s)
    change ((next s) >>= f).accesses (change s) + 1 = (next s).accesses (change s) + 1 + _
    rw [hrest, Nat.add_right_comm]
    rfl

@[simp] theorem accesses_map (f : α → β) (p : Prog σ α) (s : σ) :
    (f <$> p).accesses s = p.accesses s := by
  rw [map_eq_pure_bind, accesses_bind]
  rfl

theorem front_of_accesses_le (h : p.accesses s ≤ n) : p.front n s = (p.run s).2 := by
  induction p generalizing n s with
  | done result => cases n <;> rfl
  | access change next ih =>
    obtain ⟨n, rfl⟩ : ∃ m, n = m + 1 := ⟨n - 1, by simp only [accesses] at h; omega⟩
    exact ih s (Nat.le_of_succ_le_succ h)

/-- A program in two parts dies in the first. -/
theorem front_bind_of_le (h : n ≤ p.accesses s) : (p >>= f).front n s = p.front n s := by
  induction p generalizing n s with
  | done result =>
    obtain rfl : n = 0 := Nat.le_zero.mp h
    rw [front_zero, front_zero]
  | access change next ih =>
    cases n with
    | zero => rfl
    | succ n => exact ih s (Nat.le_of_succ_le_succ h)

/-- Or in the second. -/
theorem front_bind_of_accesses_le (h : p.accesses s ≤ n) :
    (p >>= f).front n s = (f (p.run s).1).front (n - p.accesses s) (p.run s).2 := by
  induction p generalizing n s with
  | done result => rfl
  | access change next ih =>
    obtain ⟨n, rfl⟩ : ∃ m, n = m + 1 := ⟨n - 1, by simp only [accesses] at h; omega⟩
    have hrest := ih s (Nat.le_of_succ_le_succ h)
    change ((next s) >>= f).front n (change s) = _
    rw [hrest, accesses, Nat.add_sub_add_right]
    rfl

theorem front_map (f : α → β) (n : Nat) (p : Prog σ α) (s : σ) :
    (f <$> p).front n s = p.front n s := by
  rw [map_eq_pure_bind]
  rcases Nat.le_total n (p.accesses s) with hn | hn
  · exact front_bind_of_le hn
  · rw [front_bind_of_accesses_le hn, front_pure, front_of_accesses_le hn]

/-- A program that changes nothing. -/
def Looks : Prog σ α → Prop
  | done _ => True
  | access change next => (∀ s, change s = s) ∧ ∀ s, (next s).Looks

theorem looks_pure (a : α) : (pure a : Prog σ α).Looks := trivial

theorem looks_read : (read look).Looks := ⟨fun _ => rfl, fun _ => trivial⟩

theorem Looks.bind (hp : p.Looks) (hf : ∀ a, (f a).Looks) : (p >>= f).Looks := by
  induction p with
  | done result => exact hf result
  | access change next ih => exact ⟨hp.1, fun s => ih s (hp.2 s)⟩

theorem Looks.map (hp : p.Looks) (f : α → β) : (f <$> p).Looks := by
  rw [map_eq_pure_bind]
  exact hp.bind fun a => looks_pure (f a)

theorem looks_mapM (h : ∀ x, (f x).Looks) (xs : List α) : (xs.mapM f).Looks := by
  induction xs with
  | nil => exact looks_pure []
  | cons x xs ih =>
    rw [mapM_cons]
    exact (h x).bind fun b => ih.bind fun bs => looks_pure (b :: bs)

theorem Looks.run (h : p.Looks) (s : σ) : (p.run s).2 = s := by
  induction p generalizing s with
  | done result => rfl
  | access change next ih =>
    change ((next s).run (change s)).2 = s
    rw [h.1]
    exact ih s (h.2 s) s

theorem Looks.front (h : p.Looks) (n : Nat) (s : σ) : p.front n s = s := by
  induction p generalizing n s with
  | done result => exact front_pure n result s
  | access change next ih =>
    cases n with
    | zero => rfl
    | succ n =>
      change (next s).front n (change s) = s
      rw [h.1]
      exact ih s (h.2 s) n s

theorem Looks.front_bind (h : p.Looks) (f : α → Prog σ β) (n : Nat) (s : σ) :
    (p >>= f).front n s = (f (p.run s).1).front (n - p.accesses s) s := by
  by_cases hn : n ≤ p.accesses s
  · rw [front_bind_of_le hn, h.front, Nat.sub_eq_zero_of_le hn, front_zero]
  · rw [front_bind_of_accesses_le (Nat.le_of_not_le hn), h.run]

end Prog

end Aiwatcher.Library
