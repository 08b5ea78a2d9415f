/-! # Binary floating-point numbers

A finite number of the 64-bit binary format is a sign and a magnitude `m * 2 ^ e` whose mantissa has
at most 53 bits. Two exact functions are all that reading and writing such numbers needs: rounding a
positive fraction to the nearest magnitude, ties to an even mantissa, and the shortest decimal
digits that denote a magnitude.

A fraction is a pair of natural numbers, and every operation first goes to an exact fraction and
then rounds once. So there is no intermediate precision to speak of, and infinities and what is no
number do not occur: a result that is too large is no result.

Digits are found by trying out: for each count of digits the candidate nearest to the magnitude,
until one lies in the interval of the numbers that round to it.
-/
namespace DepsManifest

/-- A finite number of the 64-bit binary format, apart from its sign: `mantissa * 2 ^ exponent`.
Zero has mantissa zero; every other number has either the full 53 bits or the least exponent. -/
structure Magnitude where
  mantissa : Nat
  exponent : Int
  deriving DecidableEq, Repr, Inhabited

namespace Magnitude

def leastExponent : Int := -1074

def greatestExponent : Int := 971

def zero : Magnitude := ⟨0, leastExponent⟩

/-- The number as an exact fraction. -/
def toFraction (m : Magnitude) : Nat × Nat :=
  if m.exponent < 0 then (m.mantissa, Nat.pow 2 m.exponent.natAbs)
  else (m.mantissa * Nat.pow 2 m.exponent.natAbs, 1)

/-- A fraction rounded to the nearest whole number, a tie to the even one. -/
def roundToEven (numerator denominator : Nat) : Nat :=
  let floor := numerator / denominator
  let twice := 2 * (numerator % denominator)
  if twice < denominator then floor
  else if twice > denominator then floor + 1
  else if floor % 2 = 0 then floor else floor + 1

/-- The number nearest to a fraction, a tie going to the even mantissa; nothing if it would be
beyond the largest number. -/
def ofFraction? (numerator denominator : Nat) : Option Magnitude :=
  if numerator = 0 ∨ denominator = 0 then some zero
  else
    -- the fraction lies strictly between `2 ^ (size - 1)` and `2 ^ (size + 1)`
    let size : Int := (numerator.log2 : Int) - (denominator.log2 : Int)
    let scaled (e : Int) : Nat × Nat :=
      if e < 0 then (numerator * Nat.pow 2 e.natAbs, denominator)
      else (numerator, denominator * Nat.pow 2 e.natAbs)
    let guess := size - 52
    -- one step down if the guess leaves fewer than 53 bits
    let fitted := if (scaled guess).1 < Nat.pow 2 52 * (scaled guess).2 then guess - 1 else guess
    let e := max fitted leastExponent
    let mantissa := roundToEven (scaled e).1 (scaled e).2
    let (mantissa, e) := if mantissa = Nat.pow 2 53 then (Nat.pow 2 52, e + 1) else (mantissa, e)
    if e > greatestExponent then none else some ⟨mantissa, e⟩

/-- The number nearest to a whole number. -/
def ofNat? (n : Nat) : Option Magnitude := ofFraction? n 1

/-- The number nearest to `digits * 10 ^ place`; nothing if it would be beyond the largest number. A
decimal with more than 310 digits before the point is beyond it, and one that begins with more than
400 zeros after the point is next to zero, so that no power much larger is ever formed. -/
def ofDecimal? (digits : Nat) (place : Int) : Option Magnitude :=
  let size : Int := (Nat.toDigits 10 digits).length + place
  if digits = 0 ∨ size < -400 then some zero
  else if size > 310 then none
  else if place < 0 then ofFraction? digits (Nat.pow 10 place.natAbs)
  else ofNat? (digits * Nat.pow 10 place.natAbs)

/-- The number nearest to the product of two numbers. -/
def mul? (a b : Magnitude) : Option Magnitude :=
  ofFraction? (a.toFraction.1 * b.toFraction.1) (a.toFraction.2 * b.toFraction.2)

/-- The number nearest to the quotient of two numbers. -/
def div? (a b : Magnitude) : Option Magnitude :=
  ofFraction? (a.toFraction.1 * b.toFraction.2) (a.toFraction.2 * b.toFraction.1)

/-! ## Shortest decimal digits -/

/-- Whether a fraction lies in the interval of numbers that round to a magnitude. The two ends
belong to it if the mantissa is even. Below a power of two the neighbour is only half as far. -/
def holds (m : Magnitude) (numerator denominator : Nat) : Bool :=
  let narrow := m.mantissa = Nat.pow 2 52 && m.exponent > leastExponent
  -- everything in quarters of the last place
  let low := 4 * m.mantissa - (if narrow then 1 else 2)
  let high := 4 * m.mantissa + 2
  let (n, d) :=
    if m.exponent < 0 then (4 * numerator * Nat.pow 2 m.exponent.natAbs, denominator)
    else (4 * numerator, denominator * Nat.pow 2 m.exponent.natAbs)
  if m.mantissa % 2 = 0 then low * d ≤ n && n ≤ high * d
  else low * d < n && n < high * d

/-- The decimal exponent of the leading digit of a positive fraction, by search downwards from a
bound. -/
def leadingExponent (numerator denominator : Nat) : Int :=
  let atLeast (k : Int) : Bool :=
    if k < 0 then numerator * Nat.pow 10 k.natAbs ≥ denominator
    else numerator ≥ denominator * Nat.pow 10 k.natAbs
  let start : Int := ((numerator.log2 : Int) - (denominator.log2 : Int)) * 30103 / 100000 + 1
  if atLeast start then start
  else if atLeast (start - 1) then start - 1
  else if atLeast (start - 2) then start - 2
  else start - 3

/-- Decimal digits as a whole number, and the decimal exponent of the leading digit: the candidate
with a given count of digits that denotes the magnitude, the nearer of the two neighbours. -/
def candidate? (m : Magnitude) (lead : Int) (count : Nat) : Option (Nat × Int) :=
  let (n, d) := m.toFraction
  -- the unit of the last digit is `10 ^ place`
  let place : Int := lead - (count : Int) + 1
  let (sn, sd) :=
    if place < 0 then (n * Nat.pow 10 place.natAbs, d) else (n, d * Nat.pow 10 place.natAbs)
  let below := sn / sd
  let asFraction (k : Nat) : Nat × Nat :=
    if place < 0 then (k, Nat.pow 10 place.natAbs) else (k * Nat.pow 10 place.natAbs, 1)
  let fits (k : Nat) : Bool := m.holds (asFraction k).1 (asFraction k).2
  let nearest := roundToEven sn sd
  let other := if nearest = below then below + 1 else below
  if fits nearest then some (nearest, place)
  else if fits other then some (other, place)
  else none

/-- A decimal without the zeros at its end. -/
def withoutTrailingZeros : Nat → Nat × Int → Nat × Int
  | 0, decimal => decimal
  | steps + 1, (digits, place) =>
    if digits ≠ 0 ∧ digits % 10 = 0 then withoutTrailingZeros steps (digits / 10, place + 1)
    else (digits, place)

/-- The shortest decimal that denotes a positive magnitude: a whole number of units and the decimal
exponent of the unit. Seventeen digits always suffice. -/
def shortest (m : Magnitude) : Nat × Int :=
  let (n, d) := m.toFraction
  let lead := leadingExponent n d
  let found := ((List.range 17).findSome? fun k => m.candidate? lead (k + 1)).getD (0, 0)
  withoutTrailingZeros 17 found

end Magnitude

end DepsManifest
