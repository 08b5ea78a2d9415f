import DepsManifest.Number.Binary64
import DepsManifest.Timestamp
import DepsManifest.Toml.Basic
/-! # TOML scalars

What a word without quotes denotes: a truth value, a whole number in one of four bases, a
floating-point number, or a date, a time or both.

A word is cut out of the text first, by the characters that can stand in one, and then taken as a
whole. A blank can be part of it only between a date and a time. The forms are tried one after the
other.

Dates and times are kept in one form: a `T` between them, nine digits of a fraction at most, `Z` or
a signed offset.
-/
namespace DepsManifest.Toml

/-! ## Numbers -/

/-- Digits without the underscores between them; each underscore must stand between two digits. -/
def groupedDigits? (isDigit : Char → Bool) : List Char → Option (List Char)
  | [] => none
  | [c] => if isDigit c then some [c] else none
  | c :: '_' :: cs => if isDigit c then (groupedDigits? isDigit cs).map (c :: ·) else none
  | c :: cs => if isDigit c then (groupedDigits? isDigit cs).map (c :: ·) else none

/-- A sign and what follows it. -/
def splitSign : List Char → Bool × List Char
  | '-' :: cs => (true, cs)
  | '+' :: cs => (false, cs)
  | cs => (false, cs)

/-- The digits of a whole number, which begin with a zero only if it is zero. -/
def wholeDigits? (cs : List Char) : Option (List Char) := do
  match ← groupedDigits? Char.isDigit cs with
  | '0' :: _ :: _ => none
  | digits => return digits

/-- The number that digits spell in a base. -/
def readBase? (base : Nat) (cs : List Char) : Option Nat := do
  let digits ← groupedDigits? (fun c => (Text.digitValue? base c).isSome) cs
  digits.foldlM (fun n d => return n * base + (← Text.digitValue? base d)) 0

def integer? : List Char → Option Int
  | '0' :: 'x' :: cs => (readBase? 16 cs).map Int.ofNat
  | '0' :: 'o' :: cs => (readBase? 8 cs).map Int.ofNat
  | '0' :: 'b' :: cs => (readBase? 2 cs).map Int.ofNat
  | cs => do
    let (negative, cs) := splitSign cs
    let n ← Text.readDecimal? (← wholeDigits? cs)
    return if negative then -(n : Int) else n

/-- The exponent that characters after its mark spell. -/
def exponent? (cs : List Char) : Option Int := do
  let (negative, cs) := splitSign cs
  let n ← Text.readDecimal? (← groupedDigits? Char.isDigit cs)
  return if negative then -(n : Int) else n

def isExponentMark (c : Char) : Bool := c == 'e' || c == 'E'

/-- The digits after a point; none without a point, where none are needed. -/
def fraction? (isNeeded : Bool) : List Char → Option (List Char)
  | [] => if isNeeded then none else some []
  | _ :: digits => groupedDigits? Char.isDigit digits

/-- What characters before an exponent denote: their digits as a whole number, and the decimal
exponent of the last of them. -/
def mantissa? (needsFraction : Bool) (cs : List Char) : Option (Nat × Int) := do
  let whole ← wholeDigits? (cs.takeWhile (· ≠ '.'))
  let fraction ← fraction? needsFraction (cs.dropWhile (· ≠ '.'))
  return (← Text.readDecimal? (whole ++ fraction), -(fraction.length : Int))

/-- The decimal that characters without a sign denote. -/
def decimal? (cs : List Char) : Option (Nat × Int) :=
  let mantissa := cs.takeWhile fun c => !isExponentMark c
  match cs.dropWhile fun c => !isExponentMark c with
  | [] => mantissa? true mantissa
  | _ :: rest => do
    let (digits, place) ← mantissa? false mantissa
    return (digits, place + (← exponent? rest))

/-- Whether the floating-point number that a word denotes lies in range; nothing if the word denotes
none. -/
def float? (word : List Char) : Option Bool :=
  let cs := (splitSign word).2
  if cs = ['i', 'n', 'f'] ∨ cs = ['n', 'a', 'n'] then some true
  else (decimal? cs).map fun (digits, place) => (Magnitude.ofDecimal? digits place).isSome

/-! ## Dates and times

Each of these functions gives what it has read in the form it is kept in, and what follows.
-/

def date? (cs : List Char) : Option (List Char × List Char) := do
  let (year, rest) ← Timestamp.readDigits? 4 cs
  let (month, rest) ← Timestamp.readAfter? '-' 2 rest
  let (day, rest) ← Timestamp.readAfter? '-' 2 rest
  if 1 ≤ month ∧ month ≤ 12 ∧ 1 ≤ day ∧ day ≤ Calendar.daysInMonth year month then
    some (cs.take 10, rest)
  else none

/-- The digits that are kept of a fraction of a second: nine at most, without zeros at the end, and
at least one. -/
def keptDigits (digits : List Char) : List Char :=
  match ((digits.take 9).reverse.dropWhile (· = '0')).reverse with
  | [] => ['0']
  | kept => kept

/-- A fraction of a second, which may be missing. -/
def secondFraction? : List Char → Option (List Char × List Char)
  | '.' :: cs =>
    let digits := cs.takeWhile Char.isDigit
    if digits.isEmpty then none else some ('.' :: keptDigits digits, cs.dropWhile Char.isDigit)
  | cs => some ([], cs)

/-- The seconds of a time, which may be missing. -/
def seconds? : List Char → Option (List Char × List Char)
  | ':' :: cs => do
    let (second, rest) ← Timestamp.readDigits? 2 cs
    let (fraction, rest) ← secondFraction? rest
    if second ≤ 60 then some (':' :: cs.take 2 ++ fraction, rest) else none
  | cs => some ([], cs)

def time? (cs : List Char) : Option (List Char × List Char) := do
  let (hour, rest) ← Timestamp.readDigits? 2 cs
  let (minute, rest) ← Timestamp.readAfter? ':' 2 rest
  let (seconds, rest) ← seconds? rest
  if hour < 24 ∧ minute < 60 then some (cs.take 5 ++ seconds, rest) else none

/-- The offset that characters are, which may be missing. An offset of zero has a plus sign. -/
def offset? (cs : List Char) : Option (List Char) :=
  if cs.isEmpty then some []
  else do
    let minutes ← Timestamp.readOffset? cs
    if cs.length = 1 then return ['Z']
    else return (if minutes < 0 then '-' else '+') :: cs.tail

/-- A time after a date, with an offset or without. -/
def timeOfDate? (cs : List Char) : Option (List Char) := do
  let (time, rest) ← time? cs
  return time ++ (← offset? rest)

/-- Whether a character separates a date and a time. -/
def isDateSeparator (c : Char) : Bool := c == 'T' || c == 't' || c == ' '

/-- The date, the time or both that a word denotes. -/
def dateTime? (word : List Char) : Option (List Char) :=
  match date? word with
  | some (date, []) => some date
  | some (date, separator :: rest) =>
    if isDateSeparator separator then (timeOfDate? rest).map fun time => date ++ 'T' :: time
    else none
  | none =>
    match time? word with
    | some (time, []) => some time
    | _ => none

/-! ## Words -/

/-- What a word denotes. -/
def ofWord? (word : List Char) : Option Toml :=
  if word = "true".toList then some (.bool true)
  else if word = "false".toList then some (.bool false)
  else
    (integer? word).map .int
      <|> (float? word).map .float
      <|> (dateTime? word).map fun text => .dateTime (String.ofList text)

/-- Whether a character can stand in a word. -/
def isWordChar (c : Char) : Bool :=
  c.isAlphanum || c == '+' || c == '-' || c == '_' || c == '.' || c == ':'

/-- The word that a text begins with. A time may follow a date after a blank. -/
def wordPart (cs : List Char) : List Char :=
  let word := cs.takeWhile isWordChar
  match date? word, cs.dropWhile isWordChar with
  | some (_, []), ' ' :: d :: rest =>
    if d.isDigit then word ++ ' ' :: (d :: rest).takeWhile isWordChar else word
  | _, _ => word

/-- The scalar that a text begins with, and what follows it. -/
def scalar? (cs : List Char) : Option (Toml × List Char) := do
  let word := wordPart cs
  return (← ofWord? word, cs.drop word.length)

end DepsManifest.Toml
