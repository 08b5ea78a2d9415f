import DepsManifest.Text.Basic
/-! # Time stamps

A time stamp is a date and a time of day with an offset from universal time. It is written
`2026-01-01T12:30:00.5+02:00`: the fraction without zeros at its end, an offset of zero as `Z`. The
parts of a time stamp are in range by its type, so there is no day that is not in the calendar and
no hour that is not in the day.

Any character of one byte may stand between date and time. Of the fraction nine digits count. The
sixtieth second is read as the last nanosecond before it, and only where leap seconds are: in the
last minute, by universal time, of a month.

The clock counts nanoseconds from an epoch. The date of a day so counted is reckoned in years that
begin in March, which puts the leap day at the end of a year.
-/
namespace DepsManifest

namespace Calendar

def isLeapYear (year : Nat) : Bool := year % 4 == 0 && (year % 100 != 0 || year % 400 == 0)

def daysInMonth (year month : Nat) : Nat :=
  if month = 2 then if isLeapYear year then 29 else 28
  else if month = 4 ∨ month = 6 ∨ month = 9 ∨ month = 11 then 30
  else 31

/-- Year, month and day of a day, counted from the start of 1970. A year is taken to begin in March,
so that a leap day is its last day, and years to repeat after four hundred. -/
def dateOfDay (day : Nat) : Nat × Nat × Nat :=
  let shifted := day + 719468
  let dayOfEra := shifted % 146097
  let yearOfEra := (dayOfEra - dayOfEra / 1460 + dayOfEra / 36524 - dayOfEra / 146096) / 365
  let dayOfYear := dayOfEra + yearOfEra / 100 - 365 * yearOfEra - yearOfEra / 4
  let monthFromMarch := (5 * dayOfYear + 2) / 153
  let year := shifted / 146097 * 400 + yearOfEra
  let dayOfMonth := dayOfYear - (153 * monthFromMarch + 2) / 5 + 1
  if monthFromMarch < 10 then (year, monthFromMarch + 3, dayOfMonth)
  else (year + 1, monthFromMarch - 9, dayOfMonth)

end Calendar

/-- A date and a time of day, with an offset from universal time in minutes. -/
structure Timestamp where
  year : Nat
  month : Nat
  day : Nat
  hour : Nat
  minute : Nat
  second : Nat
  nanosecond : Nat
  offset : Int
  year_lt : year < 10000
  month_mem : 1 ≤ month ∧ month ≤ 12
  day_mem : 1 ≤ day ∧ day ≤ Calendar.daysInMonth year month
  hour_lt : hour < 24
  minute_lt : minute < 60
  second_lt : second < 60
  nanosecond_lt : nanosecond < 1000000000
  offset_lt : offset.natAbs < 24 * 60
  deriving DecidableEq

namespace Timestamp

/-- The time stamp with given parts, if there is one. -/
def ofParts? (year month day hour minute second nanosecond : Nat) (offset : Int) :
    Option Timestamp :=
  if h : (year < 10000 ∧ (1 ≤ month ∧ month ≤ 12)
      ∧ (1 ≤ day ∧ day ≤ Calendar.daysInMonth year month))
      ∧ (hour < 24 ∧ minute < 60 ∧ second < 60 ∧ nanosecond < 1000000000)
      ∧ offset.natAbs < 24 * 60 then
    some ⟨year, month, day, hour, minute, second, nanosecond, offset, h.1.1, h.1.2.1, h.1.2.2,
      h.2.1.1, h.2.1.2.1, h.2.1.2.2.1, h.2.1.2.2.2, h.2.2⟩
  else none

/-! ## Counting from an epoch -/

def epoch : Timestamp where
  year := 1970
  month := 1
  day := 1
  hour := 0
  minute := 0
  second := 0
  nanosecond := 0
  offset := 0
  year_lt := by decide
  month_mem := by decide
  day_mem := by decide
  hour_lt := by decide
  minute_lt := by decide
  second_lt := by decide
  nanosecond_lt := by decide
  offset_lt := by decide

/-- The time stamp so many nanoseconds after the epoch; nothing after the year 9999. -/
def afterEpoch? (nanoseconds : Nat) : Option Timestamp :=
  let seconds := nanoseconds / 1000000000
  let (year, month, day) := Calendar.dateOfDay (seconds / 86400)
  ofParts? year month day (seconds / 3600 % 24) (seconds / 60 % 60) (seconds % 60)
    (nanoseconds % 1000000000) 0

/-! ## Writing -/

/-- The digits of a fraction of a second without zeros at the end, after a point. -/
def fractionText (nanosecond : Nat) : List Char :=
  if nanosecond = 0 then []
  else '.' :: ((Text.paddedDecimal 9 nanosecond).reverse.dropWhile (· = '0')).reverse

def offsetText (offset : Int) : List Char :=
  if offset = 0 then ['Z']
  else
    (if offset < 0 then '-' else '+') :: Text.paddedDecimal 2 (offset.natAbs / 60)
      ++ ':' :: Text.paddedDecimal 2 (offset.natAbs % 60)

/-- The characters of a time stamp. -/
def chars (t : Timestamp) : List Char :=
  Text.paddedDecimal 4 t.year ++ '-' :: Text.paddedDecimal 2 t.month
    ++ '-' :: Text.paddedDecimal 2 t.day ++ 'T' :: Text.paddedDecimal 2 t.hour
    ++ ':' :: Text.paddedDecimal 2 t.minute ++ ':' :: Text.paddedDecimal 2 t.second
    ++ fractionText t.nanosecond ++ offsetText t.offset

def text (t : Timestamp) : String := String.ofList t.chars

/-! ## Reading -/

/-- The number that exactly so many digits spell, and the rest. -/
def readDigits? (count : Nat) (cs : List Char) : Option (Nat × List Char) := do
  let digits := cs.take count
  if digits.length = count then return (← Text.readDecimal? digits, cs.drop count) else none

/-- The number after a character, and the rest. -/
def readAfter? (mark : Char) (count : Nat) : List Char → Option (Nat × List Char)
  | [] => none
  | c :: cs => if c = mark then readDigits? count cs else none

/-- The nanoseconds that the digits of a fraction spell. -/
def nanoseconds? (digits : List Char) : Option Nat := do
  let counted := digits.take 9
  return (← Text.readDecimal? counted) * Nat.pow 10 (9 - counted.length)

/-- The nanoseconds of a fraction, which may be missing, and the rest. -/
def readFraction? : List Char → Option (Nat × List Char)
  | '.' :: cs => do
    let n ← nanoseconds? (cs.takeWhile Char.isDigit)
    return (n, cs.dropWhile Char.isDigit)
  | cs => some (0, cs)

/-- The offset that ends a time stamp. -/
def readOffset? (cs : List Char) : Option Int :=
  match cs with
  | ['Z'] => some 0
  | ['z'] => some 0
  | sign :: cs => do
    let (hours, cs) ← readDigits? 2 cs
    let (minutes, cs) ← readAfter? ':' 2 cs
    if hours > 23 ∨ minutes > 59 ∨ ¬ cs.isEmpty then none
    else if sign = '+' then return ((hours * 60 + minutes : Nat) : Int)
    else if sign = '-' then return -((hours * 60 + minutes : Nat) : Int)
    else none
  | [] => none

/-- Whether a time stamp lies, by universal time, in the last minute of a month. -/
def endsMonth (t : Timestamp) : Bool :=
  let minutes : Int := (t.hour * 60 + t.minute : Nat) - t.offset
  let last := Calendar.daysInMonth t.year t.month
  Int.emod minutes 1440 == 1439
    && (if minutes < 0 then t.day == 1
      else if minutes < 1440 then t.day == last
      else t.day + 1 == last)

/-- The time stamp that characters denote. -/
def ofChars? (cs : List Char) : Option Timestamp := do
  let (year, cs) ← readDigits? 4 cs
  let (month, cs) ← readAfter? '-' 2 cs
  let (day, cs) ← readAfter? '-' 2 cs
  let separator ← cs.head?
  if separator.toNat ≥ 128 then none
  else
    let (hour, cs) ← readDigits? 2 cs.tail
    let (minute, cs) ← readAfter? ':' 2 cs
    let (second, cs) ← readAfter? ':' 2 cs
    let (nanosecond, cs) ← readFraction? cs
    let offset ← readOffset? cs
    if second = 60 then
      let t ← ofParts? year month day hour minute 59 (1000000000 - 1) offset
      if t.endsMonth then return t else none
    else ofParts? year month day hour minute second nanosecond offset

/-- The time stamp that a text denotes. -/
def ofText? (text : String) : Option Timestamp := ofChars? text.toList

end Timestamp

end DepsManifest
