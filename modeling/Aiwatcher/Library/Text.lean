import Mathlib.Data.List.Nodup

/-!
# Aiwatcher.Library.Text

Texts that end in a decimal number after a separator: the number and what stands
before it can be read back, whatever the front contains; and labels that are given out group
by group, each telling its group.
-/

namespace Aiwatcher.Library.Text

open List

/-- Two lists split at the last occurrence of a separator split alike. -/
theorem append_cons_inj_of_notMem_right {α : Type} {x₁ x₂ z₁ z₂ : List α} {a : α}
    (h₁ : a ∉ z₁) (h₂ : a ∉ z₂) (h : x₁ ++ a :: z₁ = x₂ ++ a :: z₂) : x₁ = x₂ ∧ z₁ = z₂ := by
  rcases append_eq_append_iff.mp h with ⟨c, hx, hz⟩ | ⟨c, hx, hz⟩
  · cases c with
    | nil =>
      rw [append_nil] at hx
      exact ⟨hx.symm, (List.cons.inj hz).2⟩
    | cons b c =>
      rw [cons_append] at hz
      have htail := (List.cons.inj hz).2
      exact absurd (htail ▸ mem_append_right c mem_cons_self) h₁
  · cases c with
    | nil =>
      rw [append_nil] at hx
      exact ⟨hx, (List.cons.inj hz).2.symm⟩
    | cons b c =>
      rw [cons_append] at hz
      have htail := (List.cons.inj hz).2
      exact absurd (htail ▸ mem_append_right c mem_cons_self) h₂

theorem notMem_repr {n : Nat} {c : Char} (hc : c.isDigit = false) : c ∉ n.repr.toList := by
  intro h
  rw [Nat.toList_repr] at h
  rw [Nat.isDigit_of_mem_toDigits (by decide) (by decide) h] at hc
  cases hc

theorem repr_inj {m n : Nat} (h : m.repr = n.repr) : m = n := by
  have hdigits := congrArg String.toList h
  rw [Nat.toList_repr, Nat.toList_repr] at hdigits
  rw [← @Nat.ofDigitChars_ten_toDigits m, hdigits, Nat.ofDigitChars_ten_toDigits]

/-- **Reading back**: a text, a separator that is no digit and a number. -/
theorem append_repr_inj {a b sep : String} {m n : Nat} {c : Char} (hsep : sep.toList = [c])
    (hc : c.isDigit = false) (h : a ++ sep ++ m.repr = b ++ sep ++ n.repr) : a = b ∧ m = n := by
  have hlist := congrArg String.toList h
  simp only [String.toList_append, hsep, append_assoc, singleton_append] at hlist
  obtain ⟨hfront, hnum⟩ :=
    append_cons_inj_of_notMem_right (notMem_repr hc) (notMem_repr hc) hlist
  exact ⟨String.toList_inj.mp hfront, repr_inj (String.toList_inj.mp hnum)⟩

/-- **Labels by groups** are distinct where each tells its group, the groups are distinct and
no group repeats one. -/
theorem nodup_flatMap_of_group {α β γ : Type} {l : List α} {f : α → List β} (of : α → γ)
    (group : β → γ) (hgroup : ∀ a ∈ l, ∀ b ∈ f a, group b = of a) (hgroups : (l.map of).Nodup)
    (heach : ∀ a ∈ l, (f a).Nodup) : (l.flatMap f).Nodup := by
  induction l with
  | nil => exact nodup_nil
  | cons a l ih =>
    rw [map_cons, nodup_cons] at hgroups
    have hrest := ih (fun a' ha' => hgroup a' (mem_cons_of_mem _ ha')) hgroups.2
      fun a' ha' => heach a' (mem_cons_of_mem _ ha')
    rw [flatMap_cons, nodup_append]
    refine ⟨heach a mem_cons_self, hrest, fun b hb b' hb' heq => ?_⟩
    obtain ⟨a', ha', hmem⟩ := mem_flatMap.mp hb'
    have hsame : of a' = of a := by
      rw [← hgroup a' (mem_cons_of_mem _ ha') b' hmem, ← heq, hgroup a mem_cons_self b hb]
    exact hgroups.1 (hsame ▸ mem_map_of_mem ha')

end Aiwatcher.Library.Text
