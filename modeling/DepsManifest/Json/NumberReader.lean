import DepsManifest.Json.Basic
/-! # Reading JSON numbers

A number without fraction and exponent that fits 64 bits is a whole number; minus zero and all other
numbers are floating point. Of a long number only as many leading digits count as fit an unsigned
64-bit word; the value is that word times or divided by one power of ten at a time, each step
rounded. A number beyond the largest finite one is refused.

So the value read is not always the number of that kind which is nearest to what the text denotes:
it is what these steps give, and the order of the steps is part of the definition. Digits dropped
before the point still count in the exponent, those after it do not. An exponent that fits no 32-bit
number gives zero or a refusal, by its sign, without being computed.
-/
namespace DepsManifest.Json

def wordLimit : Nat := UInt64.size - 1

/-- The largest power of ten that one step scales by. -/
def greatestPower : Nat := 308

/-- The number that digits spell after the digits read so far, as long as it fits a word; and the
digits that were left. -/
def fittingDigits (read : Nat) : List Char → Nat × List Char
  | [] => (read, [])
  | d :: ds =>
    let next := read * 10 + (d.toNat - '0'.toNat)
    if next > wordLimit then (read, d :: ds) else fittingDigits next ds

/-- The run of digits at the beginning of a text, and the rest. -/
def spanDigits (cs : List Char) : List Char × List Char := cs.span Char.isDigit

def powerOfTen (k : Nat) : Magnitude := (Magnitude.ofNat? (Nat.pow 10 k)).getD .zero

/-- A number divided by `10 ^ 308` some number of times; zero ends the division early. -/
def scaleDown : Nat → Magnitude → Magnitude
  | 0, m => m
  | steps + 1, m =>
    if m.mantissa = 0 then m
    else scaleDown steps ((m.div? (powerOfTen greatestPower)).getD .zero)

/-- A word times a power of ten. -/
def scaled? (word : Nat) (exponent : Int) : Option Magnitude := do
  let m ← Magnitude.ofNat? word
  if m.mantissa = 0 then return m
  else if exponent > greatestPower then none
  else if exponent ≥ 0 then m.mul? (powerOfTen exponent.toNat)
  else
    let steps := (exponent.natAbs - 1) / greatestPower
    let m := scaleDown steps m
    m.div? (powerOfTen (exponent.natAbs - steps * greatestPower))

/-- The rest of a number from its exponent mark on. -/
def readExponent? (negative : Bool) (word : Nat) (place : Int) (cs : List Char) :
    Option (Number × List Char) := do
  let (down, cs) := match cs with
    | '+' :: cs => (false, cs)
    | '-' :: cs => (true, cs)
    | cs => (false, cs)
  let (digits, rest) := spanDigits cs
  let exponent ← Text.readDecimal? digits
  if exponent > 2147483647 then
    if word ≠ 0 ∧ ¬ down then none else some (.float negative .zero, rest)
  else
    let m ← scaled? word (if down then place - exponent else place + exponent)
    return (.float negative m, rest)

/-- The rest of a floating-point number after its last digit. -/
def readScale? (negative : Bool) (word : Nat) (place : Int) (cs : List Char) :
    Option (Number × List Char) :=
  match cs with
  | 'e' :: cs => readExponent? negative word place cs
  | 'E' :: cs => readExponent? negative word place cs
  | cs => (scaled? word place).map fun m => (.float negative m, cs)

/-- The rest of a number after its point. -/
def readFraction? (negative : Bool) (word : Nat) (place : Int) (cs : List Char) :
    Option (Number × List Char) :=
  let (digits, rest) := spanDigits cs
  if digits.isEmpty then none
  else
    let (word, left) := fittingDigits word digits
    readScale? negative word (place - ((digits.length - left.length : Nat) : Int)) rest

/-- A whole number with its sign. -/
def signed (negative : Bool) (word : Nat) : Number :=
  if ¬ negative then .integer word
  else if word = 0 then .float true .zero
  else if word ≤ 9223372036854775808 then .integer (-word)
  else .float true ((Magnitude.ofNat? word).getD .zero)

/-- The number that begins with digits, given its sign. A leading zero stands alone. -/
def readUnsigned? (negative : Bool) (cs : List Char) : Option (Number × List Char) :=
  let (digits, rest) := spanDigits cs
  match digits with
  | [] => none
  | '0' :: _ :: _ => none
  | digits =>
    let (word, left) := fittingDigits 0 digits
    match rest with
    | '.' :: cs => readFraction? negative word left.length cs
    | 'e' :: cs => readExponent? negative word left.length cs
    | 'E' :: cs => readExponent? negative word left.length cs
    | _ =>
      if left.isEmpty then some (signed negative word, rest)
      else (scaled? word left.length).map fun m => (.float negative m, rest)

/-- The number at the beginning of a text, and the rest. -/
def readNumber? : List Char → Option (Number × List Char)
  | '-' :: cs => readUnsigned? true cs
  | cs => readUnsigned? false cs

end DepsManifest.Json
