import DepsManifest.Text.Basic
import DepsManifest.Value.Basic
/-! # The printed form of a value

A value is printed as the manifest text that denotes it: strings between quotes, the quote chosen so
that as few as possible need a backslash, a tuple of one element with a comma after it, dict entries
in order.

Controls without a letter of their own are written by two hexadecimal digits, and every character
beyond ASCII stands for itself. Numbers are printed although no manifest can have them.
-/
namespace DepsManifest.Value

/-- The quote for a string: double if that spares the backslashes before single quotes. -/
def quoteFor (s : List Char) : Char :=
  if '\'' ∈ s ∧ '"' ∉ s then '"' else '\''

/-- A character of a string between the given quotes. -/
def literalChar (quote c : Char) : List Char :=
  if c = '\\' then ['\\', '\\']
  else if c = '\n' then ['\\', 'n']
  else if c = '\r' then ['\\', 'r']
  else if c = '\t' then ['\\', 't']
  else if c = quote then ['\\', c]
  else if c.toNat < 0x20 ∨ c.toNat = 0x7f then
    ['\\', 'x', Nat.digitChar (c.toNat / 16), Nat.digitChar (c.toNat % 16)]
  else [c]

/-- A string as a literal. -/
def literalString (s : List Char) : List Char :=
  let quote := quoteFor s
  quote :: s.flatMap (literalChar quote) ++ [quote]

mutual

/-- The characters of a value's printed form. -/
def literal : Value → List Char
  | .null => "None".toList
  | .bool true => "True".toList
  | .bool false => "False".toList
  | .int i => Text.signedDecimal i.toInt
  | .str s => literalString s.toList
  | .list items => '[' :: literalItems items ++ [']']
  | .tuple [item] => '(' :: literal item ++ [',', ')']
  | .tuple items => '(' :: literalItems items ++ [')']
  | .dict entries => '{' :: literalEntries entries ++ ['}']

/-- The printed elements of a list or a tuple, with commas between them. -/
def literalItems : List Value → List Char
  | [] => []
  | [item] => literal item
  | item :: rest => literal item ++ [',', ' '] ++ literalItems rest

/-- The printed entries of a dict, with commas between them. -/
def literalEntries : List (Value × Value) → List Char
  | [] => []
  | [(k, v)] => literal k ++ [':', ' '] ++ literal v
  | (k, v) :: rest =>
    literal k ++ [':', ' '] ++ literal v ++ [',', ' '] ++ literalEntries rest

end

def repr (v : Value) : String := String.ofList v.literal

/-- A value as text: a string stands for itself, all else is printed. -/
def text : Value → List Char
  | .str s => s.toList
  | v => v.literal

end DepsManifest.Value
