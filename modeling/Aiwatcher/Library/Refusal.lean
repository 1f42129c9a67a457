import Mathlib.Data.List.Basic

/-!
# Aiwatcher.Library.Refusal

Programs over a state that may refuse half way (`EStateM`).  A refusal keeps whatever was
written before it, so that a program leaves nothing behind when it refuses is something to
prove.

* `refuseIf`, `okOr` — the early returns;
* `bind_ok_iff`, `refuseIf_ok_iff`, … — what an accepted program did, step by step;
* `Reads`, `Checked` — a program that writes nothing, and one that writes nothing before it
  is past its last refusal.
-/

namespace Aiwatcher.Library

/-- An error where something is wrong. -/
def refuseIf {ε : Type} {m : Type → Type} [Monad m] [MonadExcept ε m] (wrong : Prop)
    [Decidable wrong] (error : ε) : m Unit :=
  if wrong then throw error else pure ()

/-- `Option::ok_or`. -/
def okOr {ε α : Type} (error : ε) : Option α → Except ε α
  | none => .error error
  | some a => .ok a

namespace Refusal

variable {ε σ α β : Type}

/-! ## Checks -/

theorem exists_unit_iff {p : Unit → Prop} : (∃ u, p u) ↔ p () := Unique.exists_iff

theorem except_bind_ok_iff {x : Except ε α} {f : α → Except ε β} {b : β} :
    (x >>= f) = .ok b ↔ ∃ a, x = .ok a ∧ f a = .ok b := by
  cases x <;> simp [bind, Except.bind]

variable {error : ε} {f : α → EStateM ε σ β} {s s' : σ} {x : EStateM ε σ α}

@[simp] theorem except_refuseIf_ok_iff {wrong : Prop} [Decidable wrong] :
    (refuseIf wrong error : Except ε Unit) = .ok () ↔ ¬wrong := by
  unfold refuseIf
  split <;> simp [throw, throwThe, MonadExceptOf.throw, pure, Except.pure, *]

@[simp] theorem okOr_ok_iff {o : Option α} {a : α} : okOr error o = .ok a ↔ o = some a := by
  cases o <;> simp [okOr]

theorem forM_ok_iff {f : α → Except ε Unit} {items : List α} :
    forM items f = .ok () ↔ ∀ item ∈ items, f item = .ok () := by
  induction items with
  | nil => simp [pure, Except.pure]
  | cons item items ih => simp [except_bind_ok_iff, ih, exists_unit_iff]

/-! ## Accepted programs -/

theorem bind_ok_iff {b : β} :
    (x >>= f).run s = .ok b s' ↔ ∃ a s₁, x.run s = .ok a s₁ ∧ (f a).run s₁ = .ok b s' := by
  rw [EStateM.run_bind]
  cases x.run s <;> simp

@[simp] theorem pure_ok_iff {a b : α} :
    (pure a : EStateM ε σ α).run s = .ok b s' ↔ a = b ∧ s = s' := by
  simp

@[simp] theorem refuseIf_ok_iff {wrong : Prop} [Decidable wrong] {u : Unit} :
    (refuseIf wrong error : EStateM ε σ Unit).run s = .ok u s' ↔ ¬wrong ∧ s = s' := by
  unfold refuseIf
  split <;> simp [*]

@[simp] theorem ofExcept_ok_iff {x : Except ε α} {a : α} :
    (MonadExcept.ofExcept x : EStateM ε σ α).run s = .ok a s' ↔ x = .ok a ∧ s = s' := by
  cases x with
  | error e => exact iff_of_false (fun h => nomatch h) (fun h => nomatch h.1)
  | ok a => simp [MonadExcept.ofExcept]

@[simp] theorem get_ok_iff {s s' t : σ} :
    (get : EStateM ε σ σ).run s = .ok t s' ↔ s = t ∧ s = s' := by
  simp

@[simp] theorem modify_ok_iff {f : σ → σ} {u : Unit} :
    (modify f : EStateM ε σ Unit).run s = .ok u s' ↔ f s = s' := by
  simp

/-! ## Refused programs -/

/-- A program that writes nothing. -/
def Reads (x : EStateM ε σ α) : Prop :=
  (∀ s a s', x.run s = .ok a s' → s' = s) ∧ ∀ s e s', x.run s = .error e s' → s' = s

/-- A program that has written nothing when it refuses. -/
def Checked (x : EStateM ε σ α) : Prop := ∀ s e s', x.run s = .error e s' → s' = s

theorem Reads.bind (hx : Reads x) (hf : ∀ a, Checked (f a)) : Checked (x >>= f) := by
  intro s e s' h
  rw [EStateM.run_bind] at h
  split at h
  · rename_i a s₁ heq
    have hs : s₁ = s := hx.1 s a s₁ heq
    subst hs
    exact hf a s₁ e s' h
  · rename_i e' s₁ heq
    cases h
    exact hx.2 s e s' heq

/-- A program that never refuses. -/
def Total (x : EStateM ε σ α) : Prop := ∀ s e s', x.run s ≠ .error e s'

theorem Total.checked (h : Total x) : Checked x := by
  intro s e s' he
  exact absurd he (h s e s')

theorem Total.bind (hx : Total x) (hf : ∀ a, Total (f a)) : Total (x >>= f) := by
  intro s e s' h
  rw [EStateM.run_bind] at h
  split at h
  · exact hf _ _ e s' h
  · exact hx s _ _ ‹_›

/-- What follows a checked program without refusing leaves it checked. -/
theorem Checked.bind (hx : Checked x) (hf : ∀ a, Total (f a)) : Checked (x >>= f) := by
  intro s e s' h
  rw [EStateM.run_bind] at h
  split at h
  · exact absurd h (hf _ _ e s')
  · rename_i heq
    cases h
    exact hx s e s' heq

end Refusal

end Aiwatcher.Library
