import Aiwatcher.Exact.Numerals

/-!
# Aiwatcher.Exact.Computed

What is worked out of number tokens, by differences and distances from nought.

* `Computation`, `Denotes` — what is worked out, and the number it should be;
* `Readable` — a token whose exponent stays within 64 bits, and off the lowest of them;
* `exact_iff` — tokens are read exactly, and everything worked out of them is exact, exactly if
  each of them is readable.
-/

namespace Aiwatcher.Exact

open Library Decimal List

/-! ## Tokens -/

theorem Numeral.digits_lt (number : Numeral) : ∀ d ∈ number.digits, d < 10 :=
  map_digitOf_lt number.isDigit

/-- The lowest tokens, by their digits without noughts. -/
theorem Numeral.lowest_iff {number : Numeral} (hheld : number.Held) :
    number.Lowest ↔ significant number.digits ≠ [] ∧
      number.scale + trailing number.digits = I64_MIN ∧
      (significant number.digits).length ≤ MOST_DIGITS := by
  have hparts := dropWhile_eq_significant_append number.digits
  have hwhole := takeWhile_append_dropWhile (p := (· = 0)) (l := number.digits)
  constructor
  · intro h
    have hnone : trailing number.digits = 0 := by
      by_contra hne
      obtain ⟨k, hk⟩ := Nat.exists_eq_succ_of_ne_zero hne
      refine h.trailing ?_
      rw [← hwhole, hparts, hk, replicate_succ', ← append_assoc, ← append_assoc, getLast?_concat]
    rw [hnone, replicate_zero, append_nil] at hparts
    refine ⟨fun hnil => ?_, by rw [hnone, h.scale]; rfl, hparts ▸ h.few⟩
    -- all the digits are noughts, and there is one
    rw [hparts, hnil, append_nil] at hwhole
    have hne : number.digits ≠ [] := by simp [Numeral.digits, number.whole_ne]
    have hnoughts : ∀ d ∈ number.digits, d = 0 := by
      intro d hd
      rw [← hwhole] at hd
      exact of_decide_eq_true (all_eq_true.mp all_takeWhile d hd)
    refine h.trailing ?_
    rw [getLast?_eq_getLast_of_ne_nil hne, hnoughts _ (getLast_mem hne)]
  · rintro ⟨hne, hscale, hlength⟩
    have hlow := hheld.2.2
    have hnone : trailing number.digits = 0 := by omega
    rw [hnone, replicate_zero, append_nil] at hparts
    refine ⟨hheld, by omega, fun hzero => ?_, hparts ▸ hlength⟩
    rw [← hwhole, hparts, getLast?_append_of_ne_nil _ hne] at hzero
    exact getLast?_significant_ne _ hzero

theorem Numeral.scale_le {number : Numeral} (h : number.Held) : number.scale ≤ I64_MAX := by
  have hle := exponentValue_le number
  have hheld := h.1
  rw [Numeral.scale]
  omega

/-- The exponent of the token stays within 64 bits, if its number is to be kept, and off the lowest
of them. -/
def Readable (token : String) : Prop :=
  ∀ number : Numeral, number.text = token.toList →
    (Bounded number.value → number.Held) ∧ ¬ number.Lowest

theorem readable_of_parse {token : String} {number : Decimal}
    (h : parse token = .ok (some number)) : Readable token := by
  intro numeral htext
  have hparse := parse_text htext
  rw [h] at hparse
  split at hparse
  · rename_i hheld
    refine ⟨fun _ => hheld, fun hlowest => ?_⟩
    obtain ⟨hne, hscale, hlength⟩ := (Numeral.lowest_iff hheld).mp hlowest
    rw [normal_eq hheld.2.2 (Numeral.scale_le hheld) hne, if_pos ⟨by rw [hscale]; decide, hlength⟩,
      if_pos hscale] at hparse
    cases hparse
  · cases hparse

/-! ## Computations -/

inductive Computation where
  | token (text : String)
  | minus (a b : Computation)
  | abs (a : Computation)

namespace Computation

def tokens : Computation → List String
  | token text => [text]
  | minus a b => a.tokens ++ b.tokens
  | abs a => a.tokens

def depth : Computation → Nat
  | token _ => 0
  | minus a b => max a.depth b.depth + 1
  | abs a => a.depth

/-- The difference of two numbers, where both tokens are numbers. -/
def difference : Option Decimal → Option Decimal → Except Fault (Option Decimal)
  | some x, some y => some <$> x.minus y
  | _, _ => .ok none

/-- As the code works it out. -/
def eval : Computation → Except Fault (Option Decimal)
  | token text => parse text
  | minus a b => do
      let x ← a.eval
      let y ← b.eval
      difference x y
  | abs a => Option.map Decimal.abs <$> a.eval

/-- The number it should be: every token is one within the bounds. -/
inductive Denotes : Computation → ℚ → Prop where
  | token {text : String} (number : Numeral) (h : number.text = text.toList)
      (hbounded : Bounded number.value) : Denotes (token text) number.value
  | minus {a b : Computation} {p q : ℚ} (ha : Denotes a p) (hb : Denotes b q) :
      Denotes (minus a b) (p - q)
  | abs {a : Computation} {p : ℚ} (ha : Denotes a p) : Denotes (abs a) |p|

/-- It is worked out exactly, or refused, and no step of it overflows. -/
structure Evaluates (c : Computation) : Prop where
  exact : ∀ q, c.Denotes q → ∃ number, c.eval = .ok (some number) ∧ number.value = q
  refuses : (∀ q, ¬ c.Denotes q) → c.eval = .ok none

end Computation

/-- Tokens are read exactly, and so is everything worked out of them. -/
structure Exactly (a b : Computation) : Prop where
  reads : ∀ text ∈ a.tokens ++ b.tokens, (Computation.token text).Evaluates
  minus : (Computation.minus a b).Evaluates
  abs : (Computation.abs a).Evaluates
  same : ∀ x y, a.eval = .ok (some x) → b.eval = .ok (some y) → x.value = y.value → x = y
  order : ∀ x y, a.eval = .ok (some x) → b.eval = .ok (some y) →
    x.cmp y = .ok (compare x.value y.value)

namespace Computation

/-- What a computation works out to, within the exponents it may reach. -/
structure Sound (c : Computation) : Prop where
  exact : ∀ q, c.Denotes q → ∃ number, c.eval = .ok (some number) ∧ number.Normal ∧
    number.value = q ∧ number.Spans (-MOST_EXPONENT) (MOST_EXPONENT + MOST_DIGITS + c.depth)
  refuses : (∀ q, ¬ c.Denotes q) → c.eval = .ok none

variable {a b : Computation} {c : Computation}

theorem Sound.evaluates (h : c.Sound) : c.Evaluates where
  exact q hq := by
    obtain ⟨number, hrun, -, hvalue, -⟩ := h.exact q hq
    exact ⟨number, hrun, hvalue⟩
  refuses := h.refuses

theorem sound_token {text : String} (h : Readable text) : (token text).Sound := by
  have hread : ∀ number : Numeral, number.text = text.toList → number.Held →
      (Bounded number.value → ∃ read, parse text = .ok (some read) ∧ read.Normal ∧
        read.value = number.value ∧
        read.Spans (-MOST_EXPONENT) (MOST_EXPONENT + MOST_DIGITS)) ∧
      (¬ Bounded number.value → parse text = .ok none) := by
    intro number htext hheld
    rw [parse_text htext, if_pos hheld]
    exact normal_spec number.digits_lt hheld.2.2 (Numeral.scale_le hheld)
      fun hlowest => (h number htext).2 ((Numeral.lowest_iff hheld).mpr hlowest)
  constructor
  · rintro q ⟨number, htext, hbounded⟩
    obtain ⟨read, hrun, hnormal, hvalue, hspans⟩ :=
      (hread number htext ((h number htext).1 hbounded)).1 hbounded
    exact ⟨read, hrun, hnormal, hvalue, hspans.mono le_rfl (by simp [depth])⟩
  · intro hnone
    by_cases hnumber : ∃ number : Numeral, number.text = text.toList
    · obtain ⟨number, htext⟩ := hnumber
      have hout : ¬ Bounded number.value := fun hbounded => hnone _ (.token number htext hbounded)
      by_cases hheld : number.Held
      · exact (hread number htext hheld).2 hout
      · change parse text = _
        rw [parse_text htext, if_neg hheld]
    · exact parse_of_forall_ne fun number htext => hnumber ⟨number, htext⟩

/-- Refused or not, no step of it overflows. -/
theorem Evaluates.total (h : c.Evaluates) : ∃ result, c.eval = .ok result := by
  by_cases hdenotes : ∃ q, c.Denotes q
  · obtain ⟨q, hq⟩ := hdenotes
    obtain ⟨number, hrun, -⟩ := h.exact q hq
    exact ⟨_, hrun⟩
  · exact ⟨_, h.refuses fun q hq => hdenotes ⟨q, hq⟩⟩

theorem eval_minus {x y : Option Decimal} (ha : a.eval = .ok x) (hb : b.eval = .ok y) :
    (minus a b).eval = difference x y := by
  rw [eval, ha]
  change (do
    let y ← b.eval
    difference x y) = _
  rw [hb]
  rfl

/-- The span two computations share, one exponent below the most of their difference. -/
theorem Sound.pair (ha : a.Sound) (hb : b.Sound) {p q : ℚ} (hp : a.Denotes p) (hq : b.Denotes q) :
    ∃ x y, a.eval = .ok (some x) ∧ b.eval = .ok (some y) ∧ x.Normal ∧
      y.Normal ∧ x.value = p ∧ y.value = q ∧
      x.Spans (-MOST_EXPONENT)
        ((MOST_EXPONENT + MOST_DIGITS + (minus a b).depth : Int) - 1) ∧
      y.Spans (-MOST_EXPONENT)
        ((MOST_EXPONENT + MOST_DIGITS + (minus a b).depth : Int) - 1) := by
  obtain ⟨x, hx, hxnormal, hxvalue, hxspans⟩ := ha.exact p hp
  obtain ⟨y, hy, hynormal, hyvalue, hyspans⟩ := hb.exact q hq
  have hdepth : ((minus a b).depth : Int) = max a.depth b.depth + 1 := by simp [depth]
  exact ⟨x, y, hx, hy, hxnormal, hynormal, hxvalue, hyvalue,
    hxspans.mono le_rfl (by omega), hyspans.mono le_rfl (by omega)⟩

/-- Nested less than 2^61 deep, nothing leaves its machine type. -/
theorem within_i64 (h : c.depth < 2 ^ 61) :
    I64_MIN ≤ -MOST_EXPONENT ∧ -MOST_EXPONENT ≤ 0 ∧
      0 ≤ (MOST_EXPONENT + MOST_DIGITS + c.depth : Int) ∧
      (MOST_EXPONENT + MOST_DIGITS + c.depth : Int) ≤ I64_MAX ∧
      (MOST_EXPONENT + MOST_DIGITS + c.depth : Int) - -MOST_EXPONENT ≤ I64_MAX := by
  simp only [I64_MIN, I64_MAX, MOST_EXPONENT, MOST_DIGITS]
  omega

theorem sound_minus (ha : a.Sound) (hb : b.Sound) (hdepth : (minus a b).depth < 2 ^ 61) :
    (minus a b).Sound := by
  obtain ⟨hlow, hnought, hnought', hhigh, hfits⟩ := within_i64 hdepth
  constructor
  · intro _ hdenotes
    cases hdenotes with
    | minus hp hq =>
      obtain ⟨x, y, hx, hy, hxnormal, hynormal, rfl, rfl, hxspans, hyspans⟩ := ha.pair hb hp hq
      obtain ⟨z, hrun, hnormal, hvalue, hspans⟩ :=
        minus_spec hlow hnought hnought' hhigh hxnormal hynormal hfits hxspans hyspans
      refine ⟨z, ?_, hnormal, hvalue, hspans⟩
      rw [eval_minus hx hy, difference, hrun]
      rfl
  · intro hnone
    obtain ⟨y, hy⟩ := hb.evaluates.total
    by_cases hp : ∃ p, a.Denotes p
    · obtain ⟨p, hp⟩ := hp
      obtain ⟨x, hx, -⟩ := ha.exact p hp
      have hy := hb.refuses fun q hq => hnone _ (.minus hp hq)
      rw [eval_minus hx hy, difference]
      simp
    · have hx := ha.refuses fun p hp' => hp ⟨p, hp'⟩
      rw [eval_minus hx hy, difference]
      simp

theorem sound_abs {a : Computation} (ha : a.Sound) : (abs a).Sound := by
  constructor
  · intro _ hdenotes
    cases hdenotes with
    | abs hp =>
      obtain ⟨x, hx, hnormal, rfl, hspans⟩ := ha.exact _ hp
      refine ⟨x.abs, ?_, hnormal.abs, value_abs x, hspans.abs⟩
      rw [eval, hx]
      rfl
  · intro hnone
    rw [eval, ha.refuses fun p hp => hnone _ (.abs hp)]
    rfl

/-- **Every computation** over readable tokens is sound. -/
theorem sound_of_readable (c : Computation) (hdepth : c.depth < 2 ^ 61)
    (h : ∀ text ∈ c.tokens, Readable text) : c.Sound := by
  induction c with
  | token text => exact sound_token (h text mem_cons_self)
  | minus a b iha ihb =>
    have hmax : (minus a b).depth = max a.depth b.depth + 1 := rfl
    exact sound_minus
      (iha (by omega) fun text htext => h text (mem_append_left _ htext))
      (ihb (by omega) fun text htext => h text (mem_append_right _ htext)) hdepth
  | abs a ih => exact sound_abs (ih hdepth h)

theorem readable_of_evaluates {text : String} (h : (token text).Evaluates) : Readable text := by
  intro number htext
  have hparse := parse_text htext
  constructor
  · intro hbounded
    obtain ⟨read, hrun, -⟩ := h.exact _ (.token number htext hbounded)
    by_contra hheld
    rw [if_neg hheld, ← eval, hrun] at hparse
    cases hparse
  · intro hlowest
    have hheld := hlowest.held
    obtain ⟨hne, hscale, hlength⟩ := (Numeral.lowest_iff hheld).mp hlowest
    rw [if_pos hheld, normal_eq hheld.2.2 (Numeral.scale_le hheld) hne,
      if_pos ⟨by rw [hscale]; decide, hlength⟩, if_pos hscale] at hparse
    -- neither a number nor a refusal comes of it
    obtain ⟨result, hresult⟩ := h.total
    rw [eval, hparse] at hresult
    cases hresult

end Computation

/-- **Decimals are exact**, and nothing worked out of them overflows, exactly if every token keeps
its exponent within 64 bits and off the lowest of them. -/
theorem exact_iff (a b : Computation) (hdepth : (Computation.minus a b).depth < 2 ^ 61) :
    Exactly a b ↔ ∀ text ∈ a.tokens ++ b.tokens, Readable text := by
  constructor
  · exact fun h text htext => Computation.readable_of_evaluates (h.reads text htext)
  · intro h
    have hmax : (Computation.minus a b).depth = max a.depth b.depth + 1 := rfl
    have ha := Computation.sound_of_readable a (by omega) fun text htext =>
      h text (List.mem_append_left _ htext)
    have hb := Computation.sound_of_readable b (by omega) fun text htext =>
      h text (List.mem_append_right _ htext)
    obtain ⟨hlow, hnought, hnought', hhigh, hfits⟩ := Computation.within_i64 hdepth
    -- what the two work out to is what they denote
    have hpair : ∀ x y, a.eval = .ok (some x) → b.eval = .ok (some y) → x.Normal ∧ y.Normal ∧
        x.cmp y = .ok (compare x.value y.value) := by
      intro x y hx hy
      have hdenotes : ∀ {c : Computation} {z}, c.Sound → c.eval = .ok (some z) →
          ∃ q, c.Denotes q := by
        intro c z hc hz
        by_contra hnone
        rw [hc.refuses fun q hq => hnone ⟨q, hq⟩] at hz
        cases hz
      obtain ⟨p, hp⟩ := hdenotes ha hx
      obtain ⟨q, hq⟩ := hdenotes hb hy
      obtain ⟨x', y', hx', hy', hxnormal, hynormal, -, -, hxspans, hyspans⟩ := ha.pair hb hp hq
      rw [hx] at hx'
      rw [hy] at hy'
      cases hx'
      cases hy'
      exact ⟨hxnormal, hynormal,
        cmp_spec hlow hnought hnought' hhigh hxnormal hynormal hfits hxspans hyspans⟩
    exact {
      reads := fun text htext => (Computation.sound_token (h text htext)).evaluates
      minus := (Computation.sound_minus ha hb hdepth).evaluates
      abs := (Computation.sound_abs ha).evaluates
      same := fun x y hx hy heq =>
        (hpair x y hx hy).1.value_inj (hpair x y hx hy).2.1 heq
      order := fun x y hx hy => (hpair x y hx hy).2.2 }

theorem exact_tenths : Exactly (.token "0.1") (.abs (.token "-30e-2")) := by
  have hfirst : parse "0.1" = .ok (some ⟨false, [1], -1⟩) := by decide +kernel
  have hsecond : parse "-30e-2" = .ok (some ⟨true, [3], -1⟩) := by decide +kernel
  refine (exact_iff _ _ (by decide)).mpr fun text htext => ?_
  rcases List.mem_pair.mp htext with rfl | rfl
  · exact readable_of_parse hfirst
  · exact readable_of_parse hsecond

/-- The lowest exponent of 64 bits has no magnitude among them. -/
theorem lowest_overflows :
    ¬ Exactly (.token "1.5e-9223372036854775807") (.token "1") := by
  intro h
  have hparse : parse "1.5e-9223372036854775807" = .error .overflow := by decide +kernel
  obtain ⟨result, hresult⟩ := (h.reads _ List.mem_cons_self).total
  rw [Computation.eval, hparse] at hresult
  cases hresult

end Aiwatcher.Exact
