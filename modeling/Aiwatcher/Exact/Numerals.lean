import Aiwatcher.Exact.Arithmetic

/-!
# Aiwatcher.Exact.Numerals

JSON's number tokens, and what `Decimal::parse` makes of them.

* `Numeral` — a token of the grammar, with the number it denotes;
* `Bounded` — the numbers that are kept: those whose digits and whose exponent, without leading and
  trailing noughts, are within the bounds;
* `normal_spec`, `parse_text` — what a token is read as; `parse_of_forall_ne` — every other text is
  refused.
-/

namespace Aiwatcher.Exact

open Library List Option

/-! ## The grammar -/

/-- `e`, a sign or none, and digits. -/
structure Exponent where
  marker : Char
  sign : List Char
  digits : List Char
  marker_eq : marker = 'e' ∨ marker = 'E'
  sign_eq : sign = [] ∨ sign = ['-'] ∨ sign = ['+']
  digits_ne : digits ≠ []
  isDigit : ∀ c ∈ digits, c.isDigit

/-- A number token, as JSON's grammar writes one; no fraction is one without digits. -/
structure Numeral where
  negative : Bool
  whole : List Char
  fraction : List Char
  exponent : Option Exponent
  whole_ne : whole ≠ []
  leading : 1 < whole.length → whole.head? ≠ some '0'
  isDigit : ∀ c ∈ whole ++ fraction, c.isDigit

def Exponent.text (exponent : Exponent) : List Char :=
  exponent.marker :: (exponent.sign ++ exponent.digits)

def Exponent.magnitude (exponent : Exponent) : Nat :=
  numeral 10 (exponent.digits.map Decimal.digitOf)

def Exponent.value (exponent : Exponent) : Int :=
  if exponent.sign = ['-'] then -exponent.magnitude else exponent.magnitude

namespace Numeral

variable (number : Numeral)

def exponentText : List Char := number.exponent.elim [] Exponent.text

def fractionText : List Char := if number.fraction = [] then [] else '.' :: number.fraction

def unsignedText : List Char := number.whole ++ (number.fractionText ++ number.exponentText)

def text : List Char := if number.negative then '-' :: number.unsignedText else number.unsignedText

def digits : List Nat := (number.whole ++ number.fraction).map Decimal.digitOf

def magnitude : Nat := number.exponent.elim 0 Exponent.magnitude

def exponentValue : Int := number.exponent.elim 0 Exponent.value

/-- Where the last digit stands. -/
def scale : Int := number.exponentValue - number.fraction.length

def value : ℚ := Decimal.signed number.negative (numeral 10 number.digits) * (10 : ℚ) ^ number.scale

/-- Every exponent on the way is one of 64 bits. -/
def Held : Prop :=
  number.magnitude ≤ I64_MAX ∧ number.fraction.length ≤ I64_MAX ∧ I64_MIN ≤ number.scale

instance : Decidable number.Held := inferInstanceAs (Decidable (_ ∧ _))

/-- The number's exponent is the lowest of 64 bits, whose magnitude is not one of them. -/
structure Lowest : Prop where
  held : number.Held
  scale : number.scale = I64_MIN
  trailing : number.digits.getLast? ≠ some 0
  few : (number.digits.dropWhile (· = 0)).length ≤ MOST_DIGITS

end Numeral

/-- The numbers that are kept. -/
def Bounded (q : ℚ) : Prop :=
  q = 0 ∨ ∃ (m : Nat) (e : Int), |q| = m * (10 : ℚ) ^ e ∧ ¬ 10 ∣ m ∧ m < 10 ^ MOST_DIGITS ∧
    |e| ≤ MOST_EXPONENT

/-! ## Reading -/

namespace Decimal

theorem digitOf_lt {c : Char} (h : c.isDigit) : digitOf c < 10 := by
  have hle : c.toNat ≤ 57 := by
    simp only [Char.isDigit, Bool.and_eq_true, decide_eq_true_eq] at h
    exact UInt32.le_iff_toNat_le.mp h.2
  rw [digitOf]
  omega

theorem map_digitOf_lt {cs : List Char} (h : ∀ c ∈ cs, c.isDigit) : ∀ d ∈ cs.map digitOf, d < 10 :=
  fun _ hd => by
    obtain ⟨c, hc, rfl⟩ := mem_map.mp hd
    exact digitOf_lt (h c hc)

theorem span_digits {digits rest : List Char} (h : ∀ c ∈ digits, c.isDigit)
    (hrest : ∀ c ∈ rest.head?, c.isDigit = false) :
    (digits ++ rest).takeWhile Char.isDigit = digits ∧
      (digits ++ rest).dropWhile Char.isDigit = rest := by
  rw [takeWhile_append_of_pos h, dropWhile_append_of_pos h]
  cases rest with
  | nil => simp
  | cons c rest => simp [hrest c rfl]

/-- An exponent's digits are read one by one, as long as their number is one of 64 bits. -/
theorem foldlM_exponentStep (digits : List Char) {exponent : Int} (hnonneg : 0 ≤ exponent)
    (hfits : exponent ≤ I64_MAX) :
    digits.foldlM exponentStep exponent =
      if exponent * 10 ^ digits.length + numeral 10 (digits.map digitOf) ≤ I64_MAX then
        some (exponent * 10 ^ digits.length + numeral 10 (digits.map digitOf)) else none := by
  induction digits generalizing exponent with
  | nil => simp [hfits]
  | cons c digits ih =>
    have hsum : exponent * 10 ^ (c :: digits).length +
        (numeral 10 ((c :: digits).map digitOf) : Int) =
          (exponent * 10 + digitOf c) * 10 ^ digits.length + numeral 10 (digits.map digitOf) := by
      rw [map_cons, numeral_cons, length_cons, length_map]
      push_cast
      ring
    have hpow : (1 : Int) ≤ 10 ^ digits.length := one_le_pow₀ (by omega)
    rw [foldlM_cons, hsum, exponentStep, checked]
    by_cases hstep : exponent * 10 + digitOf c ≤ I64_MAX
    · rw [if_pos ⟨by rw [I64_MIN]; omega, by omega⟩, bind_some, checked,
        if_pos ⟨by rw [I64_MIN]; omega, hstep⟩]
      exact ih (by omega) hstep
    · have hbeyond : ¬ (exponent * 10 + digitOf c) * 10 ^ digits.length +
          (numeral 10 (digits.map digitOf) : Int) ≤ I64_MAX := by nlinarith
      rw [if_neg hbeyond]
      split
      · rw [bind_some, checked, if_neg fun h => hstep h.2]
        rfl
      · rfl

theorem readExponent_text (exponent : Exponent) :
    readExponent exponent.text =
      if exponent.magnitude ≤ I64_MAX then some (exponent.value, []) else none := by
  have hspan := @span_digits exponent.digits [] exponent.isDigit (by simp)
  rw [append_nil] at hspan
  have hdigits : ∀ below, readExponentDigits below exponent.digits =
      if exponent.magnitude ≤ I64_MAX then
        some (if below then -(exponent.magnitude : Int) else exponent.magnitude, []) else none := by
    intro below
    rw [readExponentDigits, hspan.1, hspan.2, foldlM_exponentStep _ le_rfl (by rw [I64_MAX]; omega),
      zero_mul, zero_add]
    split
    · rw [if_pos (by assumption), bind_some, if_neg exponent.digits_ne]
      rfl
    · rw [if_neg (by assumption)]
      rfl
  have hhead : ∀ c ∈ exponent.digits.head?, c ≠ '-' ∧ c ≠ '+' := by
    intro c hc
    have hdigit := exponent.isDigit c (mem_of_head? hc)
    refine ⟨?_, ?_⟩ <;> rintro rfl <;> revert hdigit <;> decide
  have hplain : readSigned exponent.digits = readExponentDigits false exponent.digits := by
    rw [readSigned]
    · rintro rest hdash
      exact (hhead '-' (by rw [hdash]; rfl)).1 rfl
    · rintro rest hplus
      exact (hhead '+' (by rw [hplus]; rfl)).2 rfl
  rw [Exponent.text, readExponent, if_pos exponent.marker_eq, Exponent.value]
  rcases exponent.sign_eq with hsign | hsign | hsign
  · rw [hsign, nil_append, hplain, hdigits]
    rfl
  · rw [hsign]
    exact hdigits true
  · rw [hsign]
    exact hdigits false

theorem readFraction_text (number : Numeral) {rest : List Char}
    (hrest : ∀ c ∈ rest.head?, c.isDigit = false ∧ c ≠ '.') :
    readFraction (number.fractionText ++ rest) = some (number.fraction, rest) := by
  have hspan := @span_digits number.fraction rest
    (fun c hc => number.isDigit c (mem_append_right _ hc)) fun c hc => (hrest c hc).1
  rw [Numeral.fractionText]
  split
  · rename_i hnil
    rw [hnil, nil_append]
    cases rest with
    | nil => rfl
    | cons c rest =>
      have hne := (hrest c rfl).2
      rw [readFraction]
      rintro rest' hcons
      exact hne (List.cons.inj hcons).1
  · rename_i hne
    rw [cons_append, readFraction, hspan.1, hspan.2, if_neg hne]

variable (number : Numeral)

theorem exponentText_head : ∀ c ∈ number.exponentText.head?, c = 'e' ∨ c = 'E' := by
  intro c hc
  rw [Numeral.exponentText] at hc
  cases hexponent : number.exponent with
  | none => simp [hexponent] at hc
  | some exponent =>
    simp only [hexponent, elim_some, Exponent.text, head?_cons, mem_def, some.injEq] at hc
    exact hc ▸ exponent.marker_eq

theorem exponentValue_le : number.exponentValue ≤ number.magnitude := by
  rw [Numeral.exponentValue, Numeral.magnitude]
  cases number.exponent with
  | none => rfl
  | some exponent =>
    change exponent.value ≤ exponent.magnitude
    rw [Exponent.value]
    split <;> omega

theorem readExponent_exponentText :
    readExponent number.exponentText =
      if number.magnitude ≤ I64_MAX then some (number.exponentValue, []) else none := by
  rw [Numeral.exponentText, Numeral.magnitude, Numeral.exponentValue]
  cases number.exponent with
  | none => rfl
  | some exponent => exact readExponent_text exponent

/-- **A number token** is read, digits and exponent, if every exponent on the way is held. -/
theorem readUnsigned_text :
    readUnsigned number.unsignedText =
      if number.Held then some (number.digits, number.scale) else none := by
  have hexponent := exponentText_head number
  have hspan := @span_digits number.whole (number.fractionText ++ number.exponentText)
    (fun c hc => number.isDigit c (mem_append_left _ hc)) (by
      intro c hc
      rw [Numeral.fractionText] at hc
      split at hc
      · rcases hexponent c hc with rfl | rfl <;> decide
      · simp only [cons_append, head?_cons, mem_def, some.injEq] at hc
        rw [← hc]
        decide)
  have hfraction := @readFraction_text number number.exponentText fun c hc => by
    rcases hexponent c hc with rfl | rfl <;> decide
  have hle := exponentValue_le number
  rw [readUnsigned, Numeral.unsignedText, hspan.1, hspan.2]
  dsimp only
  rw [if_neg (not_or.mpr ⟨number.whole_ne, fun h => number.leading h.1 h.2⟩), hfraction,
    bind_some, readExponent_exponentText]
  -- the exponent, the fraction's length and the two together are held one after the other
  by_cases hmagnitude : (number.magnitude : Int) ≤ I64_MAX
  · rw [if_pos hmagnitude, bind_some, if_neg (by simp), checked]
    by_cases hlength : (number.fraction.length : Int) ≤ I64_MAX
    · rw [if_pos ⟨by rw [I64_MIN]; omega, hlength⟩, bind_some, checked]
      by_cases hscale : I64_MIN ≤ number.scale
      · rw [if_pos ⟨hscale, by omega⟩, if_pos ⟨hmagnitude, hlength, hscale⟩]
        rfl
      · rw [if_neg fun h => hscale h.1, if_neg fun h => hscale h.2.2]
        rfl
    · rw [if_neg fun h => hlength h.2, if_neg fun h => hlength h.2.1]
      rfl
  · rw [if_neg hmagnitude, if_neg fun h => hmagnitude h.1]
    rfl

theorem exists_exponentText {rest : List Char} {exponent : Int}
    (h : readExponent rest = some (exponent, [])) :
    ∃ found : Option Exponent, found.elim [] Exponent.text = rest := by
  cases rest with
  | nil => exact ⟨none, rfl⟩
  | cons marker rest =>
    rw [readExponent] at h
    split at h
    · rename_i hmarker
      have hdigits : ∀ {below sign digits}, (sign = [] ∨ sign = ['-'] ∨ sign = ['+']) →
          rest = sign ++ digits → readExponentDigits below digits = some (exponent, []) →
            ∃ found : Option Exponent, found.elim [] Exponent.text = marker :: rest := by
        intro below sign digits hsign hrest hread
        rw [readExponentDigits, bind_eq_some_iff] at hread
        obtain ⟨magnitude, -, hread⟩ := hread
        split at hread
        · cases hread
        · rename_i hne
          obtain ⟨-, hnil⟩ := Prod.mk.inj (some.inj hread)
          have hall : digits.takeWhile Char.isDigit = digits := by
            have happend := takeWhile_append_dropWhile (p := Char.isDigit) (l := digits)
            rwa [hnil, append_nil] at happend
          rw [hall] at hne
          exact ⟨some ⟨marker, sign, digits, hmarker, hsign, hne, fun c hc =>
            all_eq_true.mp all_takeWhile c (hall ▸ hc)⟩, by rw [hrest]; rfl⟩
      rw [readSigned.eq_def] at h
      split at h
      · exact hdigits (.inr (.inl rfl)) rfl h
      · exact hdigits (.inr (.inr rfl)) rfl h
      · exact hdigits (.inl rfl) rfl h
    · cases h

theorem exists_fraction {rest rest' fraction : List Char}
    (h : readFraction rest = some (fraction, rest')) :
    (∀ c ∈ fraction, c.isDigit) ∧
      rest = (if fraction = [] then [] else '.' :: fraction) ++ rest' := by
  rw [readFraction.eq_def] at h
  split at h
  · split at h
    · cases h
    · rename_i rest hne
      obtain ⟨rfl, rfl⟩ := Prod.mk.inj (some.inj h)
      refine ⟨fun c hc => all_eq_true.mp all_takeWhile c hc, ?_⟩
      rw [if_neg hne, cons_append, takeWhile_append_dropWhile]
  · obtain ⟨rfl, rfl⟩ := Prod.mk.inj (some.inj h)
    exact ⟨by simp, rfl⟩

theorem exists_unsigned {rest : List Char} {read : List Nat × Int}
    (h : readUnsigned rest = some read) (negative : Bool) :
    ∃ number : Numeral, number.negative = negative ∧ number.unsignedText = rest := by
  rw [readUnsigned] at h
  dsimp only at h
  split at h
  · cases h
  · rename_i hwhole
    obtain ⟨hne, hleading⟩ := not_or.mp hwhole
    obtain ⟨⟨fraction, rest'⟩, hfraction, h⟩ := bind_eq_some_iff.mp h
    obtain ⟨⟨exponent, end'⟩, hexponent, h⟩ := bind_eq_some_iff.mp h
    dsimp only at hexponent h
    split at h
    · cases h
    · rename_i hend
      obtain ⟨hdigits, hrest⟩ := exists_fraction hfraction
      obtain ⟨found, hfound⟩ := exists_exponentText (not_ne_iff.mp hend ▸ hexponent)
      refine ⟨⟨negative, rest.takeWhile Char.isDigit, fraction, found, hne,
        fun hlong hzero => hleading ⟨hlong, hzero⟩, fun c hc => ?_⟩, rfl, ?_⟩
      · rcases mem_append.mp hc with hc | hc
        · exact all_eq_true.mp all_takeWhile c hc
        · exact hdigits c hc
      · rw [Numeral.unsignedText, Numeral.fractionText, Numeral.exponentText]
        dsimp only
        rw [hfound, ← hrest, takeWhile_append_dropWhile]

theorem head?_unsignedText : number.unsignedText.head? ≠ some '-' := by
  intro h
  rw [Numeral.unsignedText, head?_append] at h
  obtain ⟨c, whole, hwhole⟩ := exists_cons_of_ne_nil number.whole_ne
  rw [hwhole, head?_cons, some_or, some.injEq] at h
  have hdigit := number.isDigit c (mem_append_left _ (hwhole ▸ mem_cons_self))
  rw [h] at hdigit
  revert hdigit
  decide

/-- **Every other text** is refused. -/
theorem parse_of_forall_ne {token : String} (h : ∀ number : Numeral, number.text ≠ token.toList) :
    parse token = .ok none := by
  rw [parse]
  split
  · rfl
  · rename_i digits exponent hread
    exfalso
    split at hread
    · rename_i hdash
      obtain ⟨number, hnegative, htext⟩ := exists_unsigned hread true
      refine h number ?_
      rw [Numeral.text, if_pos hnegative, htext]
      exact cons_head?_tail (beq_iff_eq.mp hdash)
    · obtain ⟨number, hnegative, htext⟩ := exists_unsigned hread false
      refine h number ?_
      rw [Numeral.text, if_neg (by rw [hnegative]; simp), htext]

/-- **A number token** is taken to its normal form, if every exponent on the way is held. -/
theorem parse_text {number : Numeral} {token : String} (h : number.text = token.toList) :
    parse token = if number.Held then normal number.negative number.digits number.scale
      else .ok none := by
  have hsplit : (token.toList.head? == some '-') = number.negative ∧
      (if number.negative then token.toList.tail else token.toList) = number.unsignedText := by
    rw [← h, Numeral.text]
    cases number.negative with
    | true => simp
    | false => simpa using head?_unsignedText number
  rw [parse, hsplit.1, hsplit.2, readUnsigned_text]
  split
  · rename_i hread
    split at hread
    · cases hread
    · rw [if_neg (by assumption)]
  · rename_i digits exponent hread
    split at hread
    · obtain ⟨rfl, rfl⟩ := Prod.mk.inj (some.inj hread)
      rw [if_pos (by assumption)]
    · cases hread

/-! ## The bounds -/

theorem bounded_iff {number : Decimal} (h : number.Normal) (hne : number.digits ≠ []) :
    Bounded number.value ↔
      number.digits.length ≤ MOST_DIGITS ∧ |number.exponent| ≤ MOST_EXPONENT := by
  have hvalue := abs_value number
  have hdvd := not_dvd_numeral h.digits hne h.trailing
  constructor
  · rintro (hzero | ⟨m, e, habs, hm, hlt, hle⟩)
    · exact absurd (h.value_eq_zero_iff.mp hzero) hne
    · obtain ⟨rfl, rfl⟩ := @eq_of_mul_zpow 10 _ m (by omega) number.exponent e hdvd hm
        (by exact_mod_cast hvalue.symm.trans habs)
      refine ⟨?_, hle⟩
      obtain ⟨d, digits, hdigits⟩ := exists_cons_of_ne_nil hne
      have hd : d ≠ 0 := fun hd => h.leading (by rw [hdigits, hd]; rfl)
      rw [hdigits] at hlt ⊢
      exact (Nat.pow_lt_pow_iff_right (by omega)).mp (lt_of_le_of_lt (le_numeral hd) hlt)
  · rintro ⟨hlength, hle⟩
    exact .inr ⟨numeral 10 number.digits, number.exponent, hvalue, hdvd,
      lt_of_lt_of_le (numeral_lt (by omega) h.digits) (Nat.pow_le_pow_right (by omega) hlength),
      hle⟩

section NormalForm

variable {negative : Bool} {digits : List Nat} {exponent : Int}

theorem normal_eq (hlow : I64_MIN ≤ exponent) (hhigh : exponent ≤ I64_MAX)
    (hne : significant digits ≠ []) :
    normal negative digits exponent =
      if exponent + trailing digits ≤ I64_MAX ∧ (significant digits).length ≤ MOST_DIGITS then
        if exponent + trailing digits = I64_MIN then .error .overflow
        else .ok (if |exponent + trailing digits| ≤ MOST_EXPONENT then
          some ⟨negative, significant digits, exponent + trailing digits⟩ else none)
      else .ok none := by
  rw [normal, stripped_eq negative digits hlow hhigh]
  by_cases hfits : exponent + trailing digits ≤ I64_MAX
  · rw [if_pos hfits, if_neg hne]
    dsimp only
    by_cases hlength : (significant digits).length ≤ MOST_DIGITS
    · rw [if_pos hlength, if_pos ⟨hfits, hlength⟩, i64, fitting]
      by_cases hlowest : exponent + trailing digits = I64_MIN
      · rw [if_pos hlowest, hlowest, if_neg (by decide)]
        rfl
      · have habs : I64_MIN ≤ |exponent + trailing digits| ∧
            |exponent + trailing digits| ≤ I64_MAX := by
          simp only [I64_MIN, I64_MAX] at *
          exact ⟨le_trans (by omega) (abs_nonneg _), abs_le.mpr ⟨by omega, by omega⟩⟩
        rw [if_neg hlowest, if_pos habs]
        rfl
    · rw [if_neg hlength, if_neg fun h => hlength h.2]
  · rw [if_neg hfits, if_neg fun h => hfits h.1]

theorem normal_spec (h : ∀ d ∈ digits, d < 10) (hlow : I64_MIN ≤ exponent)
    (hhigh : exponent ≤ I64_MAX)
    (hlowest : ¬ (significant digits ≠ [] ∧ exponent + trailing digits = I64_MIN ∧
      (significant digits).length ≤ MOST_DIGITS)) :
    (Bounded (signed negative (numeral 10 digits) * (10 : ℚ) ^ exponent) →
      ∃ number, normal negative digits exponent = .ok (some number) ∧ number.Normal ∧
        number.value = signed negative (numeral 10 digits) * (10 : ℚ) ^ exponent ∧
        number.Spans (-MOST_EXPONENT) (MOST_EXPONENT + MOST_DIGITS)) ∧
    (¬ Bounded (signed negative (numeral 10 digits) * (10 : ℚ) ^ exponent) →
      normal negative digits exponent = .ok none) := by
  have hnormal := normal_stripped negative h exponent
  have hvalue := value_stripped negative digits exponent
  by_cases hne : significant digits = []
  · rw [if_pos hne] at hnormal hvalue
    have htrailing := trailing_eq_zero_of_significant_eq_nil hne
    have hrun : normal negative digits exponent = .ok (some zero) := by
      rw [normal, stripped_eq negative digits hlow hhigh, htrailing, if_pos (by simpa using hhigh),
        if_pos hne]
      rfl
    rw [← hvalue]
    refine ⟨fun _ => ⟨zero, hrun, hnormal, rfl, by decide, by decide⟩, fun hout => ?_⟩
    exact absurd (.inl value_zero) hout
  · rw [if_neg hne] at hnormal hvalue
    have hbounds := bounded_iff hnormal hne
    rw [hvalue] at hbounds
    dsimp only at hbounds
    rw [hbounds, normal_eq hlow hhigh hne]
    constructor
    · rintro ⟨hlength, hle⟩
      obtain ⟨hfrom, hto⟩ := abs_le.mp hle
      have hnotMin : exponent + trailing digits ≠ I64_MIN := fun hmin =>
        hlowest ⟨hne, hmin, hlength⟩
      refine ⟨⟨negative, significant digits, exponent + trailing digits⟩, ?_, hnormal, hvalue,
        hfrom, ?_⟩
      · rw [if_pos ⟨hto.trans (by decide), hlength⟩, if_neg hnotMin, if_pos hle]
      · dsimp only
        omega
    · intro hout
      split
      · rename_i hfits
        rw [if_neg fun hmin => hlowest ⟨hne, hmin, hfits.2⟩, if_neg fun hle => hout ⟨hfits.2, hle⟩]
      · rfl

end NormalForm

end Decimal

end Aiwatcher.Exact
