import Aiwatcher.Exact.Decimal
import Mathlib.Data.Rat.Cast.Order
import Mathlib.Tactic.IntervalCases
import Mathlib.Tactic.Ring

/-!
# Aiwatcher.Exact.Arithmetic

What a `Decimal` denotes, and that its arithmetic is that of the rationals.

* `Normal` — no leading and no trailing noughts, so one value has one spelling (`value_inj`);
* `Spans` — where a number's digits are, which is what keeps every step within its machine type;
* `plus_spec`, `minus_spec`, `cmp_spec` — sums, differences and the order, over any span.
-/

namespace Aiwatcher.Exact

open Library List

namespace Decimal

/-! ## Values -/

def signed (negative : Bool) (n : Nat) : ℚ := if negative then -n else n

def value (number : Decimal) : ℚ :=
  signed number.negative (numeral 10 number.digits) * (10 : ℚ) ^ number.exponent

/-- One spelling for each value: no leading and no trailing noughts, and nought has no digits. -/
structure Normal (number : Decimal) : Prop where
  digits : ∀ d ∈ number.digits, d < 10
  leading : number.digits.head? ≠ some 0
  trailing : number.digits.getLast? ≠ some 0
  nought : number.digits = [] → number = zero

theorem normal_zero : zero.Normal := ⟨by simp [zero], by simp [zero], by simp [zero], fun _ => rfl⟩

@[simp] theorem value_zero : zero.value = 0 := by simp [zero, value, signed]

variable (negative : Bool)

theorem abs_signed (n : Nat) : |signed negative n| = n := by
  cases negative <;> simp [signed]

theorem signed_add (m n : Nat) :
    signed negative (m + n) = signed negative m + signed negative n := by
  cases negative
  · simp [signed]
  · simp only [signed, if_true, Nat.cast_add, neg_add]

theorem signed_not (n : Nat) : signed (!negative) n = -signed negative n := by
  cases negative <;> simp [signed]

theorem ten_zpow_pos (e : Int) : (0 : ℚ) < (10 : ℚ) ^ e := zpow_pos (by norm_num) e

theorem abs_value (number : Decimal) :
    |number.value| = numeral 10 number.digits * (10 : ℚ) ^ number.exponent := by
  rw [value, abs_mul, abs_signed, abs_of_pos (ten_zpow_pos _)]

namespace Normal

variable {a b : Decimal}

theorem numeral_pos (h : a.Normal) (hne : a.digits ≠ []) : 0 < numeral 10 a.digits :=
  Library.numeral_pos (by omega) hne h.leading

theorem sign (h : a.Normal) (hne : a.digits ≠ []) :
    if a.negative then a.value < 0 else 0 < a.value := by
  have hnumeral : (0 : ℚ) < numeral 10 a.digits := Nat.cast_pos.mpr (h.numeral_pos hne)
  have hprod := mul_pos hnumeral (ten_zpow_pos a.exponent)
  split
  · rename_i hneg
    rw [value, signed, if_pos hneg, neg_mul]
    exact neg_neg_of_pos hprod
  · rename_i hpos
    rwa [value, signed, if_neg hpos]

theorem value_eq_zero_iff (h : a.Normal) : a.value = 0 ↔ a.digits = [] := by
  constructor
  · intro hzero
    by_contra hne
    have hsign := h.sign hne
    rw [hzero] at hsign
    simp at hsign
  · intro hnil
    rw [h.nought hnil, value_zero]

/-- **Equal numbers have equal Decimals.** -/
theorem value_inj (ha : a.Normal) (hb : b.Normal) (h : a.value = b.value) : a = b := by
  by_cases hnil : a.digits = []
  · have hzero : b.value = 0 := by rw [← h, ha.value_eq_zero_iff.mpr hnil]
    rw [ha.nought hnil, hb.nought (hb.value_eq_zero_iff.mp hzero)]
  · have hnil' : b.digits ≠ [] := fun hnil' =>
      hnil (ha.value_eq_zero_iff.mp (h.trans (hb.value_eq_zero_iff.mpr hnil')))
    have hsign : a.negative = b.negative := by
      have hsa := ha.sign hnil
      have hsb := hb.sign hnil'
      rw [h] at hsa
      cases hna : a.negative <;> cases hnb : b.negative <;> simp [hna, hnb] at hsa hsb ⊢ <;>
        linarith
    have habs : |a.value| = |b.value| := by rw [h]
    rw [abs_value, abs_value] at habs
    have hparts := @eq_of_mul_zpow 10 _ _ (by omega) _ _
      (not_dvd_numeral ha.digits hnil ha.trailing) (not_dvd_numeral hb.digits hnil' hb.trailing)
      (by exact_mod_cast habs)
    have hdigits := numeral_inj (by omega) ha.digits hb.digits ha.leading hb.leading hparts.1
    cases a
    cases b
    simp_all

theorem abs (h : a.Normal) : a.abs.Normal :=
  ⟨h.digits, h.leading, h.trailing, fun hnil => by rw [h.nought hnil]; rfl⟩

theorem negated (h : a.Normal) : a.negated.Normal :=
  ⟨h.digits, h.leading, h.trailing, fun hnil => by rw [h.nought hnil]; rfl⟩

end Normal

theorem value_abs (number : Decimal) : number.abs.value = |number.value| := by
  rw [abs_value]
  simp [value, abs, signed]

theorem value_negated (number : Decimal) : number.negated.value = -number.value := by
  rcases number with ⟨negative, _ | ⟨d, digits⟩, exponent⟩
  · simp [value, negated, signed]
  · cases negative <;> simp [value, negated, signed]

/-! ## Digits without their noughts -/

/-- The digits between the leading and the trailing noughts. -/
def significant (digits : List Nat) : List Nat :=
  ((digits.dropWhile (· = 0)).reverse.dropWhile (· = 0)).reverse

/-- How many noughts they trail, after the leading ones. -/
def trailing (digits : List Nat) : Nat :=
  ((digits.dropWhile (· = 0)).reverse.takeWhile (· = 0)).length

theorem dropWhile_eq_significant_append (digits : List Nat) :
    digits.dropWhile (· = 0) = significant digits ++ List.replicate (trailing digits) 0 := by
  have hnoughts : ∀ ds : List Nat, ds.takeWhile (· = 0) =
      List.replicate (ds.takeWhile (· = 0)).length 0 := fun ds =>
    eq_replicate_iff.mpr ⟨rfl, fun d hd => of_decide_eq_true
      (all_eq_true.mp all_takeWhile d hd)⟩
  rw [← reverse_inj, reverse_append, reverse_replicate, significant,
    reverse_reverse, trailing, ← hnoughts, takeWhile_append_dropWhile]

theorem numeral_eq_significant (digits : List Nat) :
    numeral 10 digits = numeral 10 (significant digits) * 10 ^ trailing digits := by
  rw [← numeral_append_replicate, ← dropWhile_eq_significant_append, numeral_dropWhile]

theorem length_significant_le (digits : List Nat) :
    (significant digits).length + trailing digits ≤ digits.length := by
  have hlength := congrArg List.length (dropWhile_eq_significant_append digits)
  rw [length_append, length_replicate] at hlength
  rw [← hlength]
  exact (dropWhile_suffix _).length_le

variable {a b : List Nat} {digits : List Nat} {exponent : Int} {low high : Int} {number : Decimal}

theorem mem_of_mem_significant {d : Nat} (h : d ∈ significant digits) : d ∈ digits := by
  rw [significant, mem_reverse] at h
  exact (dropWhile_suffix _).subset (mem_reverse.mp ((dropWhile_suffix _).subset h))

theorem head?_dropWhile_ne (digits : List Nat) : (digits.dropWhile (· = 0)).head? ≠ some 0 := by
  intro h
  have hfalse := head?_dropWhile_not (· = 0) digits
  rw [h] at hfalse
  simp at hfalse

theorem getLast?_significant_ne (digits : List Nat) : (significant digits).getLast? ≠ some 0 := by
  rw [significant, getLast?_reverse]
  exact head?_dropWhile_ne _

theorem head?_significant_ne (digits : List Nat) : (significant digits).head? ≠ some 0 := by
  intro h
  refine head?_dropWhile_ne digits ?_
  rw [dropWhile_eq_significant_append, head?_append, h]
  rfl

theorem trailing_eq_zero_of_significant_eq_nil (h : significant digits = []) :
    trailing digits = 0 := by
  by_contra hne
  refine head?_dropWhile_ne digits ?_
  obtain ⟨k, hk⟩ := Nat.exists_eq_succ_of_ne_zero hne
  rw [dropWhile_eq_significant_append, h, hk]
  rfl

theorem popped_eq (hlow : I64_MIN ≤ exponent) (hhigh : exponent ≤ I64_MAX) (digits : List Nat) :
    popped digits exponent =
      if exponent + (digits.takeWhile (· = 0)).length ≤ I64_MAX then
        some (digits.dropWhile (· = 0), exponent + (digits.takeWhile (· = 0)).length)
      else none := by
  induction digits generalizing exponent with
  | nil => simp [popped, hhigh]
  | cons d digits ih =>
    cases d with
    | succ d => simp [popped, hhigh]
    | zero =>
      simp only [popped, checked, takeWhile_cons, dropWhile_cons, decide_true, if_true, length_cons]
      split
      · rename_i hfits
        rw [Option.bind_some, ih hfits.1 hfits.2]
        have hsum : exponent + 1 + ((digits.takeWhile (· = 0)).length : Int) =
          exponent + ((digits.takeWhile (· = 0)).length + 1 : Nat) := by push_cast; ring
        rw [hsum]
      · rename_i hover
        rw [Option.bind_none, if_neg]
        omega

/-- **What is stripped** is what is significant, if the exponent still fits. -/
theorem stripped_eq (digits : List Nat) (hlow : I64_MIN ≤ exponent) (hhigh : exponent ≤ I64_MAX) :
    stripped negative digits exponent =
      if exponent + trailing digits ≤ I64_MAX then
        some (if significant digits = [] then zero
          else ⟨negative, significant digits, exponent + trailing digits⟩)
      else none := by
  rw [stripped, popped_eq hlow hhigh]
  simp only [apply_ite (Option.map _), Option.map_some, Option.map_none, significant, trailing,
    reverse_eq_nil_iff]

theorem normal_stripped (h : ∀ d ∈ digits, d < 10) (exponent : Int) :
    (if significant digits = [] then zero
      else ⟨negative, significant digits, exponent + trailing digits⟩ : Decimal).Normal := by
  split
  · exact normal_zero
  · rename_i hne
    exact ⟨fun d hd => h d (mem_of_mem_significant hd), head?_significant_ne digits,
      getLast?_significant_ne digits, fun hnil => absurd hnil hne⟩

theorem value_stripped (digits : List Nat) (exponent : Int) :
    (if significant digits = [] then zero
      else ⟨negative, significant digits, exponent + trailing digits⟩ : Decimal).value =
        signed negative (numeral 10 digits) * (10 : ℚ) ^ exponent := by
  have hsigned : signed negative (numeral 10 digits) =
      signed negative (numeral 10 (significant digits)) * (10 : ℚ) ^ trailing digits := by
    rw [numeral_eq_significant digits]
    cases negative <;> simp [signed]
  rw [hsigned]
  split
  · rename_i hnil
    simp [hnil, signed]
  · rw [value, zpow_add₀ (by norm_num), zpow_natCast]
    ring

/-! ## Long addition and subtraction -/

theorem addFrom_spec {sums : List Nat} (hsums : ∀ sum ∈ sums, sum ≤ 18) {carry : Nat}
    (hcarry : carry ≤ 1) : ∃ digits, addFrom sums carry = .ok digits ∧ (∀ d ∈ digits, d < 10) ∧
      Nat.ofDigits 10 digits = Nat.ofDigits 10 sums + carry ∧
      digits.length ≤ sums.length + 1 := by
  induction sums generalizing carry with
  | nil =>
    refine ⟨Nat.digits 10 carry, rfl, fun d hd => Nat.digits_lt_base (by omega) hd, ?_, ?_⟩
    · rw [Nat.ofDigits_digits, Nat.ofDigits_nil, Nat.zero_add]
    · interval_cases carry <;> simp
  | cons sum sums ih =>
    have hsum := hsums sum mem_cons_self
    obtain ⟨digits, hrun, hdigits, hvalue, hlength⟩ := ih
      (fun s hs => hsums s (mem_cons_of_mem _ hs))
      (show (carry + sum) / 10 ≤ 1 by omega)
    refine ⟨(carry + sum) % 10 :: digits, ?_, ?_, ?_, ?_⟩
    · rw [addFrom, if_neg (by omega), hrun]
      rfl
    · rintro d (_ | ⟨_, hd⟩)
      · omega
      · exact hdigits d hd
    · rw [Nat.ofDigits_cons, Nat.ofDigits_cons, hvalue]
      omega
    · simp only [length_cons]
      omega

theorem ofDigits_zipWithAll (a b : List Nat) :
    Nat.ofDigits 10 (List.zipWithAll (fun x y => x.getD 0 + y.getD 0) a b) =
      Nat.ofDigits 10 a + Nat.ofDigits 10 b := by
  induction a generalizing b with
  | nil => simp
  | cons x a ih =>
    cases b with
    | nil => simp
    | cons y b =>
      simp only [zipWithAll_cons_cons, Option.getD_some, Nat.ofDigits_cons, ih]
      ring

theorem le_of_mem_zipWithAll (ha : ∀ d ∈ a, d < 10) (hb : ∀ d ∈ b, d < 10) {sum : Nat}
    (h : sum ∈ List.zipWithAll (fun x y => x.getD 0 + y.getD 0) a b) : sum ≤ 18 := by
  induction a generalizing b with
  | nil =>
    simp only [nil_zipWithAll, mem_map] at h
    obtain ⟨y, hy, rfl⟩ := h
    have hlt := hb y hy
    simp only [Option.getD_none, Option.getD_some]
    omega
  | cons x a ih =>
    have hx := ha x mem_cons_self
    cases b with
    | nil =>
      simp only [zipWithAll_nil, mem_map] at h
      obtain ⟨y, hy, rfl⟩ := h
      have hlt := ha y hy
      simp only [Option.getD_none, Option.getD_some]
      omega
    | cons y b =>
      have hy := hb y mem_cons_self
      rw [zipWithAll_cons_cons] at h
      rcases mem_cons.mp h with rfl | h
      · simp only [Option.getD_some]
        omega
      · exact ih (fun d hd => ha d (mem_cons_of_mem _ hd))
          (fun d hd => hb d (mem_cons_of_mem _ hd)) h

theorem length_zipWithAll (a b : List Nat) :
    (List.zipWithAll (fun x y => x.getD 0 + y.getD 0) a b).length = max a.length b.length := by
  induction a generalizing b with
  | nil => simp
  | cons x a ih =>
    cases b with
    | nil => simp
    | cons y b => simp [ih]

theorem add_spec (ha : ∀ d ∈ a, d < 10) (hb : ∀ d ∈ b, d < 10) :
    ∃ digits, add a b = .ok digits ∧ (∀ d ∈ digits, d < 10) ∧
      numeral 10 digits = numeral 10 a + numeral 10 b ∧
      digits.length ≤ max a.length b.length + 1 := by
  obtain ⟨digits, hrun, hdigits, hvalue, hlength⟩ := @addFrom_spec _
    (fun sum hsum => le_of_mem_zipWithAll (fun d hd => ha d (mem_reverse.mp hd))
      (fun d hd => hb d (mem_reverse.mp hd)) hsum) 0 (by omega)
  refine ⟨digits.reverse, ?_, fun d hd => hdigits d (mem_reverse.mp hd), ?_, ?_⟩
  · rw [add, hrun]
    rfl
  · rw [numeral, reverse_reverse, hvalue, ofDigits_zipWithAll]
    rfl
  · rw [length_zipWithAll, length_reverse, length_reverse] at hlength
    rwa [length_reverse]

theorem fitting_ok {low high x : Int} (hlow : low ≤ x) (hhigh : x ≤ high) :
    fitting low high x = .ok x := if_pos ⟨hlow, hhigh⟩

theorem subtractDigit_eq {x : Nat} {y : Option Nat} {borrow : Nat} (hx : x < 10)
    (hy : y.getD 0 < 10) (hborrow : borrow ≤ 1) :
    subtractDigit x y borrow = .ok ((x : Int) - borrow - (y.getD 0 : Nat)) := by
  have hfirst : i8 (small x - borrow) = .ok ((x : Int) - borrow) := by
    rw [small, if_pos (by omega)]
    exact fitting_ok (by omega) (by omega)
  rw [subtractDigit, hfirst]
  cases y with
  | none =>
    change Except.ok ((x : Int) - borrow) = _
    simp
  | some y =>
    rw [Option.getD_some] at hy ⊢
    change i8 ((x : Int) - borrow - small y) = _
    rw [small, if_pos (by omega)]
    exact fitting_ok (by omega) (by omega)

theorem ofDigits_eq_head_add_tail (digits : List Nat) :
    Nat.ofDigits 10 digits = digits.head?.getD 0 + 10 * Nat.ofDigits 10 digits.tail := by
  cases digits with
  | nil => rfl
  | cons d digits => exact Nat.ofDigits_cons

theorem subtractFrom_cons {x : Nat} {borrow borrow' kept : Nat} (hx : x < 10)
    (hy : b.head?.getD 0 < 10) (hborrow : borrow ≤ 1)
    (hborrow' : borrow' = if x < b.head?.getD 0 + borrow then 1 else 0)
    (hkept : kept + b.head?.getD 0 + borrow = x + 10 * borrow') :
    subtractFrom (x :: a) b borrow = (kept :: ·) <$> subtractFrom a b.tail borrow' := by
  have hbefore : (if (x : Int) - borrow - (b.head?.getD 0 : Nat) < 0 then (1 : Int) else 0) =
      borrow' := by
    rw [hborrow']
    split <;> split <;> omega
  have hhere : i8 ((x : Int) - borrow - (b.head?.getD 0 : Nat) + 10 * borrow') = .ok (kept : Int) :=
    by
    have hsum : (x : Int) - borrow - (b.head?.getD 0 : Nat) + 10 * borrow' = kept := by omega
    have hlt : borrow' ≤ 1 := by rw [hborrow']; split <;> omega
    rw [hsum]
    exact fitting_ok (by omega) (by omega)
  rw [subtractFrom, subtractDigit_eq hx hy hborrow]
  change (do
    let kept ← i8 ((x : Int) - borrow - (b.head?.getD 0 : Nat) +
      10 * if (x : Int) - borrow - (b.head?.getD 0 : Nat) < 0 then 1 else 0)
    (kept.toNat :: ·) <$> subtractFrom a b.tail
      (if (x : Int) - borrow - (b.head?.getD 0 : Nat) < 0 then 1 else 0)) = _
  rw [hbefore, hhere]
  rfl

/-- Digits, the last first, and a borrow: what comes out is what is left, if there is enough, and
no difference leaves `i8`. -/
theorem subtractFrom_spec {a b : List Nat} (ha : ∀ d ∈ a, d < 10) (hb : ∀ d ∈ b, d < 10)
    {borrow : Nat} (hborrow : borrow ≤ 1)
    (hle : Nat.ofDigits 10 b + borrow ≤ Nat.ofDigits 10 a) :
    ∃ digits, subtractFrom a b borrow = .ok digits ∧ (∀ d ∈ digits, d < 10) ∧
      Nat.ofDigits 10 digits + (Nat.ofDigits 10 b + borrow) = Nat.ofDigits 10 a ∧
      digits.length = a.length := by
  induction a generalizing b borrow with
  | nil => exact ⟨[], rfl, by simp, by rw [Nat.ofDigits_nil] at hle ⊢; omega, rfl⟩
  | cons x a ih =>
    have hx := ha x mem_cons_self
    have hy : b.head?.getD 0 < 10 := by
      cases b with
      | nil => simp
      | cons y b => exact hb y mem_cons_self
    rw [Nat.ofDigits_cons, ofDigits_eq_head_add_tail b] at hle ⊢
    obtain ⟨borrow', hborrow'⟩ : ∃ borrow' : Nat,
      borrow' = if x < b.head?.getD 0 + borrow then 1 else 0 := ⟨_, rfl⟩
    obtain ⟨kept, hkept, hlt, hle'⟩ : ∃ kept : Nat,
        kept + b.head?.getD 0 + borrow = x + 10 * borrow' ∧ kept < 10 ∧
          Nat.ofDigits 10 b.tail + borrow' ≤ Nat.ofDigits 10 a := by
      refine ⟨x + 10 * borrow' - b.head?.getD 0 - borrow, ?_⟩
      rw [hborrow']
      split <;> omega
    obtain ⟨digits, hrun, hdigits, hvalue, hlength⟩ := ih
      (fun d hd => ha d (mem_cons_of_mem _ hd)) (fun d hd => hb d (mem_of_mem_tail hd))
      (by rw [hborrow']; split <;> omega) hle'
    refine ⟨kept :: digits, ?_, ?_, ?_, ?_⟩
    · rw [subtractFrom_cons hx hy hborrow hborrow' hkept, hrun]
      rfl
    · rintro d (_ | ⟨_, hd⟩)
      · exact hlt
      · exact hdigits d hd
    · rw [Nat.ofDigits_cons]
      omega
    · rw [length_cons, length_cons, hlength]

theorem subtract_spec (ha : ∀ d ∈ a, d < 10) (hb : ∀ d ∈ b, d < 10)
    (hle : numeral 10 b ≤ numeral 10 a) :
    ∃ digits, subtract a b = .ok digits ∧ (∀ d ∈ digits, d < 10) ∧
      numeral 10 digits + numeral 10 b = numeral 10 a ∧ digits.length = a.length := by
  obtain ⟨digits, hrun, hdigits, hvalue, hlength⟩ := @subtractFrom_spec a.reverse b.reverse
    (fun d hd => ha d (mem_reverse.mp hd)) (fun d hd => hb d (mem_reverse.mp hd)) 0
    (by omega) hle
  refine ⟨digits.reverse, ?_, fun d hd => hdigits d (mem_reverse.mp hd), ?_, ?_⟩
  · rw [subtract]
    change List.reverse <$> subtractFrom a.reverse b.reverse ((0 : Nat) : Int) = _
    rw [hrun]
    rfl
  · rw [numeral, reverse_reverse]
    exact hvalue
  · rw [length_reverse, hlength, length_reverse]

theorem compareMagnitude_eq (ha : ∀ d ∈ a, d < 10) (hb : ∀ d ∈ b, d < 10) :
    compareMagnitude a b = compare (numeral 10 a) (numeral 10 b) := by
  have hdigits : ∀ {digits : List Nat}, (∀ d ∈ digits, d < 10) →
      ∀ d ∈ digits.dropWhile (· = 0), d < 10 := fun h d hd =>
    h d ((dropWhile_suffix _).subset hd)
  rw [compareMagnitude, compare_numeral (by omega) (hdigits ha) (hdigits hb) (head?_dropWhile_ne a)
    (head?_dropWhile_ne b), numeral_dropWhile, numeral_dropWhile]

/-! ## Sums -/

/-- Where a number's digits are: no lower than one exponent, and below another. -/
def Spans (low high : Int) (number : Decimal) : Prop :=
  low ≤ number.exponent ∧ number.exponent + number.digits.length ≤ high

theorem Spans.mono {low low' high high' : Int} (h : number.Spans low high) (hlow : low' ≤ low)
    (hhigh : high ≤ high') : number.Spans low' high' :=
  ⟨le_trans hlow h.1, le_trans h.2 hhigh⟩

theorem Spans.abs (h : number.Spans low high) :
    number.abs.Spans low high := h

theorem Spans.negated (h : number.Spans low high) :
    number.negated.Spans low high := h

/-- What stands at an exponent, down to a lower one. -/
theorem aligned_spec (hnormal : number.Normal) (hspans : number.Spans low high)
    (hfrom : low ≤ exponent) (hto : exponent ≤ number.exponent) (hfits : high - low ≤ I64_MAX) :
    ∃ digits, number.aligned exponent = .ok digits ∧ (∀ d ∈ digits, d < 10) ∧
      number.value = signed number.negative (numeral 10 digits) * (10 : ℚ) ^ exponent ∧
      exponent + digits.length ≤ high := by
  obtain ⟨k, hk⟩ := Int.le.dest hto
  have hshift : number.exponent - exponent = k := by omega
  obtain ⟨hstart, hend⟩ := hspans
  refine ⟨number.digits ++ List.replicate k 0, ?_, fun d hd => ?_, ?_, ?_⟩
  · rw [aligned, hshift, i64, fitting_ok (by rw [I64_MIN]; omega) (by omega)]
    rfl
  · rcases mem_append.mp hd with hd | hd
    · exact hnormal.digits d hd
    · rw [eq_of_mem_replicate hd]
      omega
  · rw [value, numeral_append_replicate, ← hk, zpow_add₀ (by norm_num), zpow_natCast]
    cases number.negative <;> simp [signed] <;> ring
  · rw [length_append, length_replicate]
    push_cast
    omega

section Sums

variable {low high : Int} (hlow : I64_MIN ≤ low) (hnought : low ≤ 0) (hnought' : 0 ≤ high)
  (hhigh : high ≤ I64_MAX)

include hlow hnought hnought' hhigh

theorem stripped_spec (negative : Bool) {digits : List Nat} (h : ∀ d ∈ digits, d < 10)
    {exponent : Int} (hfrom : low ≤ exponent) (hto : exponent + digits.length ≤ high) :
    ((stripped negative digits exponent).getD zero).Normal ∧
      ((stripped negative digits exponent).getD zero).value =
        signed negative (numeral 10 digits) * (10 : ℚ) ^ exponent ∧
      ((stripped negative digits exponent).getD zero).Spans low high := by
  have hlength := length_significant_le digits
  have hstripped := stripped_eq negative digits (show I64_MIN ≤ exponent by omega)
    (show exponent ≤ I64_MAX by omega)
  rw [if_pos (by omega)] at hstripped
  rw [hstripped, Option.getD_some]
  refine ⟨normal_stripped negative h exponent, value_stripped negative digits exponent, ?_⟩
  split
  · exact ⟨hnought, by simpa [zero] using hnought'⟩
  · exact ⟨by dsimp only; omega, by dsimp only; omega⟩

theorem combined_spec {negative negative' : Bool} {a b : List Nat} (ha : ∀ d ∈ a, d < 10)
    (hb : ∀ d ∈ b, d < 10) {exponent : Int} (hfrom : low ≤ exponent)
    (hto : exponent + (max a.length b.length + 1 : Nat) ≤ high) :
    ∃ sum, combined negative negative' a b exponent = .ok sum ∧ sum.Normal ∧
      sum.value = (signed negative (numeral 10 a) + signed negative' (numeral 10 b)) *
        (10 : ℚ) ^ exponent ∧ sum.Spans low high := by
  have hstripped := fun negative digits h => @stripped_spec low high hlow hnought hnought' hhigh
    negative digits h exponent hfrom
  by_cases hsame : negative = negative'
  · obtain ⟨digits, hrun, hdigits, hvalue, hlength⟩ := add_spec ha hb
    obtain ⟨hnormal, hsum, hspans⟩ := hstripped negative digits hdigits (by omega)
    refine ⟨_, ?_, hnormal, ?_, hspans⟩
    · rw [combined, if_pos hsame, hrun]
      rfl
    · rw [hsum, hvalue, ← hsame, signed_add]
  · have hother : negative' = !negative := by
      cases negative <;> cases negative' <;> simp at hsame ⊢
    rcases lt_trichotomy (numeral 10 a) (numeral 10 b) with hlt | heq | hlt
    · obtain ⟨digits, hrun, hdigits, hvalue, hlength⟩ := subtract_spec hb ha hlt.le
      obtain ⟨hnormal, hsum, hspans⟩ := hstripped negative' digits hdigits (by omega)
      refine ⟨_, ?_, hnormal, ?_, hspans⟩
      · rw [combined, if_neg hsame, compareMagnitude_eq ha hb, compare_lt_iff_lt.mpr hlt, hrun]
        rfl
      · rw [hsum, ← hvalue, hother, signed_add, signed_not, signed_not]
        ring
    · refine ⟨zero, ?_, normal_zero, ?_, hnought, by simpa [zero] using hnought'⟩
      · rw [combined, if_neg hsame, compareMagnitude_eq ha hb, compare_eq_iff_eq.mpr heq]
      · rw [heq, hother]
        cases negative <;> simp [signed]
    · obtain ⟨digits, hrun, hdigits, hvalue, hlength⟩ := subtract_spec ha hb hlt.le
      obtain ⟨hnormal, hsum, hspans⟩ := hstripped negative digits hdigits (by omega)
      refine ⟨_, ?_, hnormal, ?_, hspans⟩
      · rw [combined, if_neg hsame, compareMagnitude_eq ha hb, compare_gt_iff_gt.mpr hlt, hrun]
        rfl
      · rw [hsum, ← hvalue, hother, signed_add, signed_not]
        ring

/-- **Sums are exact**, and no step of one overflows. -/
theorem plus_spec {a b : Decimal} (ha : a.Normal) (hb : b.Normal) (hfits : high - low ≤ I64_MAX)
    (hspans : a.Spans low (high - 1)) (hspans' : b.Spans low (high - 1)) :
    ∃ sum, a.plus b = .ok sum ∧ sum.Normal ∧ sum.value = a.value + b.value ∧
      sum.Spans low high := by
  by_cases hnil : a.digits = []
  · refine ⟨b, ?_, hb, ?_, hspans'.mono le_rfl (by omega)⟩
    · rw [plus, hnil]
      rfl
    · rw [ha.value_eq_zero_iff.mpr hnil, zero_add]
  by_cases hnil' : b.digits = []
  · refine ⟨a, ?_, ha, ?_, hspans.mono le_rfl (by omega)⟩
    · rw [plus, if_neg (by simpa using hnil), hnil']
      rfl
    · rw [hb.value_eq_zero_iff.mpr hnil', add_zero]
  obtain ⟨x, hx, hxdigits, hxvalue, hxlength⟩ := aligned_spec ha hspans
    (le_min hspans.1 hspans'.1) (min_le_left _ _) (by omega)
  obtain ⟨y, hy, hydigits, hyvalue, hylength⟩ := aligned_spec hb hspans'
    (le_min hspans.1 hspans'.1) (min_le_right _ _) (by omega)
  obtain ⟨sum, hrun, hnormal, hvalue, hsum⟩ := @combined_spec low high hlow hnought hnought' hhigh
    a.negative b.negative x y hxdigits hydigits (min a.exponent b.exponent)
    (le_min hspans.1 hspans'.1) (by omega)
  refine ⟨sum, ?_, hnormal, ?_, hsum⟩
  · rw [plus, if_neg (by simpa using hnil), if_neg (by simpa using hnil')]
    dsimp only
    rw [hx]
    change (do
      let y ← b.aligned (min a.exponent b.exponent)
      combined a.negative b.negative x y (min a.exponent b.exponent)) = _
    rw [hy]
    exact hrun
  · rw [hvalue, add_mul, ← hxvalue, ← hyvalue]

/-- **Differences are exact**, and no step of one overflows. -/
theorem minus_spec {a b : Decimal} (ha : a.Normal) (hb : b.Normal) (hfits : high - low ≤ I64_MAX)
    (hspans : a.Spans low (high - 1)) (hspans' : b.Spans low (high - 1)) :
    ∃ difference, a.minus b = .ok difference ∧ difference.Normal ∧
      difference.value = a.value - b.value ∧ difference.Spans low high := by
  obtain ⟨difference, hrun, hnormal, hvalue, hspan⟩ := plus_spec hlow hnought hnought' hhigh ha
    hb.negated hfits hspans hspans'.negated
  refine ⟨difference, hrun, hnormal, ?_, hspan⟩
  rw [hvalue, value_negated, sub_eq_add_neg]

/-- **The order is that of the rationals**, and no step of a comparison overflows. -/
theorem cmp_spec {a b : Decimal} (ha : a.Normal) (hb : b.Normal) (hfits : high - low ≤ I64_MAX)
    (hspans : a.Spans low (high - 1)) (hspans' : b.Spans low (high - 1)) :
    a.cmp b = .ok (compare a.value b.value) := by
  obtain ⟨difference, hrun, hnormal, hvalue, -⟩ := minus_spec hlow hnought hnought' hhigh ha hb
    hfits hspans hspans'
  rw [cmp, hrun]
  change Except.ok (if difference.digits.isEmpty then Ordering.eq
    else if difference.negative then .lt else .gt) = _
  congr 1
  by_cases hnil : difference.digits = []
  · have hzero := hnormal.value_eq_zero_iff.mpr hnil
    rw [hnil, compare_eq_iff_eq.mpr (by linarith)]
    rfl
  · have hsign := hnormal.sign hnil
    rw [if_neg (by simpa using hnil)]
    split at hsign <;> rename_i hneg
    · rw [if_pos hneg, compare_lt_iff_lt.mpr (by linarith)]
    · rw [if_neg hneg, compare_gt_iff_gt.mpr (by linarith)]

end Sums

end Decimal

end Aiwatcher.Exact
