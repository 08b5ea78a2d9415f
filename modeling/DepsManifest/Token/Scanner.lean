import DepsManifest.Text.Bytes
import DepsManifest.Token.Literal
/-! # Scanning bytes

Where a literal ends can be found among the bytes of the text without looking at characters. The
scanner goes from one index to another: past a byte that means nothing to it, past three quotes that
close a literal, and past a backslash and the byte after it, be that the first of several bytes of a
character or beyond the end of the text.

What the scanner took is a literal, and its parts are cut out of it by their lengths alone: what
stands before the first quote, and what stands between three quotes or one on either side.

This is a second way of reading a literal. That it finds the same end as the reader of characters,
and never cuts a character in two, is a theorem and not built in: all bytes it looks for are those
of ASCII characters, which are no part of any other.
-/
namespace DepsManifest

/-- A scanner for the end of a literal: the byte of its quote, and the bytes after the first quote.
-/
structure Scanner where
  quote : UInt8
  bytes : List UInt8

namespace Scanner

/-- Where a scan is: at an index, or at its end, with the number of bytes up to the end of the
literal if it has one. -/
inductive State where
  | running (index : Nat)
  | closed (length : Nat)
  | unclosed
  deriving DecidableEq

def State.isFinal : State → Bool
  | running _ => false
  | closed _ => true
  | unclosed => true

/-- The scanner of a text, of which the marks and the first quote have been read. -/
def ofOpened? (opened rest : List Char) : Option Scanner :=
  (Text.bytes opened).getLast?.map fun quote => ⟨quote, Text.bytes rest⟩

variable (s : Scanner)

def isTriple : Bool := s.bytes[0]? == some s.quote && s.bytes[1]? == some s.quote

def start : State := .running (if s.isTriple then 2 else 0)

/-- The index after the backslash at an index and what it takes with it. -/
def afterBackslash (i : Nat) : Nat :=
  if s.bytes[i + 1]? = some '\r'.toUInt8 ∧ s.bytes[i + 2]? = some '\n'.toUInt8 then i + 3 else i + 2

/-- What becomes of a scan at an index of a quote. -/
def atQuote (i : Nat) : State :=
  if ¬s.isTriple then .closed (i + 1)
  else if s.bytes[i + 1]? = some s.quote ∧ s.bytes[i + 2]? = some s.quote then .closed (i + 3)
  else .running (i + 1)

def step : State → State
  | .running i =>
    match s.bytes[i]? with
    | none => .unclosed
    | some b =>
      if b = '\\'.toUInt8 then .running (s.afterBackslash i)
      else if b = '\n'.toUInt8 ∧ ¬s.isTriple then .unclosed
      else if b = s.quote then s.atQuote i
      else .running (i + 1)
  | state => state

end Scanner

namespace Literal

/-- The number of bytes before the first quote of a literal. -/
def marksLength (literal : List Char) : Nat :=
  if literal.any isQuote then Text.byteLength (literal.takeWhile fun c => !isQuote c) else 0

/-- The number of quotes on either side of a body, by what a quoted text begins with and by its
length. -/
def quotesLength (quoted : List Char) : Nat :=
  if 6 ≤ Text.byteLength quoted ∧ ((Text.afterBeginning? ['\'', '\'', '\''] quoted).isSome ∨
    (Text.afterBeginning? ['"', '"', '"'] quoted).isSome) then 3 else 1

/-- The marks and the body of a literal, cut out by their lengths. -/
def takeApart? (literal : List Char) : Option (List Char × List Char) := do
  let (marks, quoted) ← Text.cut? (marksLength literal) literal
  let quotes := quotesLength quoted
  let body ← Text.slice? quotes (Text.byteLength quoted - quotes) quoted
  return (marks, body)

end Literal

end DepsManifest
