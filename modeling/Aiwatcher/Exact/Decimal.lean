import Aiwatcher.Library.Digits

/-!
# Aiwatcher.Exact.Decimal

Numbers as they were written (`exact.rs`): a `Decimal` is read off a JSON number token, subtracted
and compared without a double in between.

A step that leaves its machine type stops with `overflow`, which is what the code does where
overflow checks are on; without them it wraps.  A token is read by its characters: everything the
code looks for in its bytes is of one byte.
-/

namespace Aiwatcher.Exact

open Library

/-- An arithmetic step left its machine type. -/
inductive Fault where
  | overflow
  deriving DecidableEq, Repr

/-! ## Machine integers -/

def I64_MAX : Int := 9223372036854775807

def I64_MIN : Int := -9223372036854775808

/-- `checked_mul`, `checked_add` and `checked_sub` of `i64`s, of what they work out. -/
def checked (x : Int) : Option Int := if I64_MIN ≤ x ∧ x ≤ I64_MAX then some x else none

/-- `+`, `-`, `abs` and the like, of what they work out. -/
def fitting (low high x : Int) : Except Fault Int :=
  if low ≤ x ∧ x ≤ high then .ok x else .error .overflow

def i64 (x : Int) : Except Fault Int := fitting I64_MIN I64_MAX x

def i8 (x : Int) : Except Fault Int := fitting (-128) 127 x

/-! ## Decimals -/

def MOST_EXPONENT : Int := 4096

def MOST_DIGITS : Nat := 4096

/-- `digits × 10^exponent`, negative or not. -/
structure Decimal where
  negative : Bool
  digits : List Nat
  exponent : Int
  deriving DecidableEq, Repr

namespace Decimal

def zero : Decimal := ⟨false, [], 0⟩

/-- Pop the trailing noughts, of digits listed backwards. -/
def popped : List Nat → Int → Option (List Nat × Int)
  | 0 :: digits, exponent => (checked (exponent + 1)).bind (popped digits)
  | digits, exponent => some (digits, exponent)

def stripped (negative : Bool) (digits : List Nat) (exponent : Int) : Option Decimal :=
  (popped (digits.dropWhile (· = 0)).reverse exponent).map fun stripped =>
    if stripped.1 = [] then zero else ⟨negative, stripped.1.reverse, stripped.2⟩

def normal (negative : Bool) (digits : List Nat) (exponent : Int) :
    Except Fault (Option Decimal) :=
  match stripped negative digits exponent with
  | none => .ok none
  | some normal =>
    if normal.digits.length ≤ MOST_DIGITS then do
      let magnitude ← i64 |normal.exponent|
      .ok (if magnitude ≤ MOST_EXPONENT then some normal else none)
    else .ok none

/-! ## Reading a token -/

def digitOf (c : Char) : Nat := c.toNat - 48

/-- A fraction, and what follows it. -/
def readFraction : List Char → Option (List Char × List Char)
  | '.' :: rest =>
    if rest.takeWhile Char.isDigit = [] then none
    else some (rest.takeWhile Char.isDigit, rest.dropWhile Char.isDigit)
  | rest => some ([], rest)

/-- One more digit of an exponent. -/
def exponentStep (exponent : Int) (c : Char) : Option Int :=
  (checked (exponent * 10)).bind fun tens => checked (tens + digitOf c)

/-- An exponent's digits, after its sign, and what follows it. -/
def readExponentDigits (below : Bool) (rest : List Char) : Option (Int × List Char) :=
  ((rest.takeWhile Char.isDigit).foldlM exponentStep 0).bind fun exponent =>
    if rest.takeWhile Char.isDigit = [] then none
    else some (if below then -exponent else exponent, rest.dropWhile Char.isDigit)

/-- An exponent, after its marker. -/
def readSigned : List Char → Option (Int × List Char)
  | '-' :: rest => readExponentDigits true rest
  | '+' :: rest => readExponentDigits false rest
  | rest => readExponentDigits false rest

/-- An exponent, and what follows it. -/
def readExponent : List Char → Option (Int × List Char)
  | marker :: rest =>
    if marker = 'e' ∨ marker = 'E' then readSigned rest else some (0, marker :: rest)
  | [] => some (0, [])

/-- What follows a token's sign: its digits, and where its point is. -/
def readUnsigned (rest : List Char) : Option (List Nat × Int) :=
  let whole := rest.takeWhile Char.isDigit
  if whole = [] ∨ 1 < whole.length ∧ whole.head? = some '0' then none
  else
    (readFraction (rest.dropWhile Char.isDigit)).bind fun (fraction, rest) =>
      (readExponent rest).bind fun (exponent, rest) =>
        if rest ≠ [] then none
        else
          (checked fraction.length).bind fun length =>
            (checked (exponent - length)).map fun exponent =>
              ((whole ++ fraction).map digitOf, exponent)

/-- A JSON number token, as JSON's grammar writes one — nothing around it. -/
def parse (token : String) : Except Fault (Option Decimal) :=
  let negative := token.toList.head? == some '-'
  match readUnsigned (if negative then token.toList.tail else token.toList) with
  | none => .ok none
  | some (digits, exponent) => normal negative digits exponent

/-! ## Arithmetic -/

def abs (number : Decimal) : Decimal := { number with negative := false }

def negated (number : Decimal) : Decimal :=
  { number with negative := !number.negative && !number.digits.isEmpty }

/-- `compare_magnitude` -/
def compareMagnitude (a b : List Nat) : Ordering :=
  let a := a.dropWhile (· = 0)
  let b := b.dropWhile (· = 0)
  (compare a.length b.length).then (List.compareLex compare a b)

/-- The loop of `add`, from the last digits on, over what stands at each position of both.  The sums
are `u8`s; the last carry is written out by itself. -/
def addFrom : List Nat → Nat → Except Fault (List Nat)
  | [], carry => .ok (Nat.digits 10 carry)
  | sum :: sums, carry =>
    if 256 ≤ carry + sum then .error .overflow
    else ((carry + sum) % 10 :: ·) <$> addFrom sums ((carry + sum) / 10)

def add (a b : List Nat) : Except Fault (List Nat) :=
  List.reverse <$> addFrom (List.zipWithAll (fun x y => x.getD 0 + y.getD 0) a.reverse b.reverse) 0

/-- `i8::try_from`, or nought. -/
def small (digit : Nat) : Int := if digit ≤ 127 then digit else 0

/-- One position of `subtract`: the digit before it borrows. -/
def subtractDigit (x : Nat) (y : Option Nat) (borrow : Int) : Except Fault Int := do
  let digit ← i8 (small x - borrow)
  match y with
  | none => .ok digit
  | some y => i8 (digit - small y)

/-- The loop of `subtract`, from the last digits on. -/
def subtractFrom : List Nat → List Nat → Int → Except Fault (List Nat)
  | [], _, _ => .ok []
  | x :: a, b, borrow => do
      let digit ← subtractDigit x b.head? borrow
      let borrow : Int := if digit < 0 then 1 else 0
      let kept ← i8 (digit + 10 * borrow)
      (kept.toNat :: ·) <$> subtractFrom a b.tail borrow

/-- `a − b`, where `a` is the larger. -/
def subtract (a b : List Nat) : Except Fault (List Nat) :=
  List.reverse <$> subtractFrom a.reverse b.reverse 0

/-- A number's digits, down to an exponent. -/
def aligned (number : Decimal) (exponent : Int) : Except Fault (List Nat) := do
  let shift ← i64 (number.exponent - exponent)
  .ok (number.digits ++ List.replicate shift.toNat 0)

/-- The sum of two numbers, by their digits down to one exponent. -/
def combined (negative negative' : Bool) (a b : List Nat) (exponent : Int) :
    Except Fault Decimal :=
  if negative = negative' then do
    let digits ← add a b
    .ok ((stripped negative digits exponent).getD zero)
  else
    match compareMagnitude a b with
    | .eq => .ok zero
    | .gt => do
        let digits ← subtract a b
        .ok ((stripped negative digits exponent).getD zero)
    | .lt => do
        let digits ← subtract b a
        .ok ((stripped negative' digits exponent).getD zero)

def plus (a b : Decimal) : Except Fault Decimal :=
  if a.digits.isEmpty then .ok b
  else if b.digits.isEmpty then .ok a
  else do
    let exponent := min a.exponent b.exponent
    let x ← a.aligned exponent
    let y ← b.aligned exponent
    combined a.negative b.negative x y exponent

/-- `self − other`, exactly. -/
def minus (a b : Decimal) : Except Fault Decimal := a.plus b.negated

def cmp (a b : Decimal) : Except Fault Ordering := do
  let difference ← a.minus b
  .ok (if difference.digits.isEmpty then .eq else if difference.negative then .lt else .gt)

end Decimal

end Aiwatcher.Exact
