import DepsManifest.Text.Basic
/-! # TOML values

The values of the format in which settings are written. Whole numbers may have any size, and of a
floating-point number only whether it lies in range is kept: a number out of range is a fault of
whoever reads it, and no fault of the text. A date or a time is kept as its text.

No setting is a floating-point number, so nothing more of one is ever needed; but it has to be read,
as it may stand under a key that means nothing. What separates the parts of a document is here as
well: blanks, comments, and line breaks, which are a line feed with or without a carriage return.
-/
namespace DepsManifest

/-- A TOML value. -/
inductive Toml where
  | str (s : String)
  | int (i : Int)
  | float (isInRange : Bool)
  | bool (b : Bool)
  | dateTime (text : String)
  | arr (items : List Toml)
  | table (entries : List (String × Toml))
  deriving Inhabited

namespace Toml

/-- The greatest nesting of arrays and inline tables, and the most keys with points between them. -/
def nestingLimit : Nat := 80

/-! ## Numbers in range -/

/-- Whether a whole number has 128 bits, with a sign or without. -/
def hasWidth (i : Int) : Bool := -Int.ofNat (Nat.pow 2 127) ≤ i && i < Int.ofNat (Nat.pow 2 128)

mutual

/-- Whether every number in a value lies in range. -/
def isInRange : Toml → Bool
  | .int i => hasWidth i
  | .float isInRange => isInRange
  | .arr items => itemsAreInRange items
  | .table entries => entriesAreInRange entries
  | .str _ => true
  | .bool _ => true
  | .dateTime _ => true

/-- Whether every number in some values lies in range. -/
def itemsAreInRange : List Toml → Bool
  | [] => true
  | item :: items => item.isInRange && itemsAreInRange items

/-- Whether every number in some entries lies in range. -/
def entriesAreInRange : List (String × Toml) → Bool
  | [] => true
  | (_, v) :: entries => v.isInRange && entriesAreInRange entries

end

/-! ## Blanks, comments and line breaks -/

/-- Whether a character can stand in a text or a comment. -/
def isPrintable (c : Char) : Bool := c == '\t' || (' ' ≤ c && c ≠ '\x7f')

def isSpace (c : Char) : Bool := c == ' ' || c == '\t'

def skipSpaces (cs : List Char) : List Char := cs.dropWhile isSpace

/-- The line break at the beginning of a text taken away. -/
def skipBreak? : List Char → Option (List Char)
  | '\n' :: cs => some cs
  | '\r' :: '\n' :: cs => some cs
  | _ => none

def skipComment : List Char → List Char
  | '#' :: cs => cs.dropWhile isPrintable
  | cs => cs

/-- A text without the blanks, comments and at most a number of line breaks at its beginning. -/
def skipLinesUpTo : Nat → List Char → List Char
  | 0, cs => cs
  | n + 1, cs =>
    let cs := skipComment (skipSpaces cs)
    match skipBreak? cs with
    | some rest => skipLinesUpTo n rest
    | none => cs

/-- A text without the blanks, comments and line breaks at its beginning. -/
def skipLines (cs : List Char) : List Char := skipLinesUpTo (cs.length + 1) cs

end Toml

end DepsManifest
