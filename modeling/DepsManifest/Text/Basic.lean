/-! # Operations on text

Text is handled as its list of characters. This module holds the few operations that the rest of the
library shares: splitting at the first occurrence of a separator, replacing a character by a text,
digits in a base, and the class of blank characters.

A function that looks for something in a text gives nothing if it is not there. A function that
takes something from the beginning of a text also gives the rest, so that readers can be put one
after the other. Lengths in bytes are those of the usual encoding, in which a character takes one to
four.
-/
namespace DepsManifest.Text

/-- The rest of a text after a given beginning. -/
def afterBeginning? : List Char → List Char → Option (List Char)
  | [], rest => some rest
  | _ :: _, [] => none
  | b :: bs, c :: cs => if b = c then afterBeginning? bs cs else none

/-- The text before the first occurrence of a separator, and the text after it. -/
def splitAtFirst? (separator : List Char) : List Char → Option (List Char × List Char)
  | [] => if separator.isEmpty then some ([], []) else none
  | c :: cs =>
    match afterBeginning? separator (c :: cs) with
    | some rest => some ([], rest)
    | none => (splitAtFirst? separator cs).map fun (before, after) => (c :: before, after)

/-- The text after the last occurrence of a character, or the whole text if it has none. -/
def afterLast (mark : Char) : List Char → List Char
  | [] => []
  | c :: cs =>
    if c = mark then afterLast mark cs
    else if mark ∈ cs then afterLast mark cs
    else c :: cs

/-- Every occurrence of a character replaced by a text. -/
def replace (mark : Char) (replacement s : List Char) : List Char :=
  s.flatMap fun c => if c = mark then replacement else [c]

/-- The blank characters of Unicode. -/
def isBlank (c : Char) : Bool :=
  let n := c.toNat
  (0x9 ≤ n && n ≤ 0xd) || n == 0x20 || n == 0x85 || n == 0xa0 || n == 0x1680
    || (0x2000 ≤ n && n ≤ 0x200a) || n == 0x2028 || n == 0x2029 || n == 0x202f || n == 0x205f
    || n == 0x3000

/-- The value of a digit in a base up to sixteen. -/
def digitValue? (base : Nat) (c : Char) : Option Nat :=
  let value :=
    if '0' ≤ c && c ≤ '9' then some (c.toNat - '0'.toNat)
    else if 'a' ≤ c && c ≤ 'f' then some (c.toNat - 'a'.toNat + 10)
    else if 'A' ≤ c && c ≤ 'F' then some (c.toNat - 'A'.toNat + 10)
    else none
  value.filter (· < base)

/-- The code that a given number of hexadecimal digits spell; nothing if there are fewer. -/
def hexadecimalCode? : Nat → Nat → List Char → Option Nat
  | 0, code, _ => some code
  | _ + 1, _, [] => none
  | n + 1, code, c :: cs =>
    match digitValue? 16 c with
    | some d => hexadecimalCode? n (code * 16 + d) cs
    | none => none

/-- The character of a code. -/
def ofCode? (code : Nat) : Option Char :=
  if h : code.isValidChar then some (Char.ofNatAux code h) else none

def decimal (n : Nat) : List Char := Nat.toDigits 10 n

def hexadecimal (n : Nat) : List Char := Nat.toDigits 16 n

/-- A signed number in decimal digits, a minus sign before a negative one. -/
def signedDecimal (i : Int) : List Char :=
  if i < 0 then '-' :: decimal i.natAbs else decimal i.natAbs

/-- A number in decimal digits, filled up with zeros on the left to a width. -/
def paddedDecimal (width n : Nat) : List Char :=
  let digits := decimal n
  List.replicate (width - digits.length) '0' ++ digits

/-- The number that a run of decimal digits denotes; nothing for an empty run or another
character. -/
def readDecimal? : List Char → Option Nat
  | [] => none
  | cs => cs.foldl (fun total c => do
      let n ← total
      let d ← digitValue? 10 c
      return n * 10 + d) (some 0)

def byteLength : List Char → Nat
  | [] => 0
  | c :: cs => c.utf8Size + byteLength cs

/-- Texts with a separator between each two. -/
def joinWith (separator : List Char) : List (List Char) → List Char
  | [] => []
  | [s] => s
  | s :: t :: rest => s ++ separator ++ joinWith separator (t :: rest)

end DepsManifest.Text
