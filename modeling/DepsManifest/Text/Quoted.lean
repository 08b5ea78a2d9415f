import DepsManifest.Text.Basic
import DepsManifest.Text.Concealed
/-! # Quoted text

A message shows a text between quotes. The quote itself and the backslash stand after a backslash,
the four common controls have their letters, every other character that cannot be seen is written by
its number, and all else stands for itself.

Quoting is one function of the quote (`quotedBy`), for texts between double quotes and for single
characters between single ones; the quote of the other kind needs no backslash. This is the form of
messages and of keys in paths. Values are printed in another form, which a manifest can be written
in.
-/
namespace DepsManifest.Text

/-- A character inside a quotation. -/
def escaped (quote c : Char) : List Char :=
  if c = '\x00' then ['\\', '0']
  else if c = '\t' then ['\\', 't']
  else if c = '\r' then ['\\', 'r']
  else if c = '\n' then ['\\', 'n']
  else if c = '\\' ∨ c = quote then ['\\', c]
  else if isConcealed c then ['\\', 'u', '{'] ++ hexadecimal c.toNat ++ ['}']
  else [c]

/-- A text between two quotes. -/
def quotedBy (quote : Char) (s : List Char) : List Char :=
  quote :: s.flatMap (escaped quote) ++ [quote]

def quoted (s : String) : String := String.ofList (quotedBy '"' s.toList)

/-- A single character between single quotes. -/
def quotedChar (c : Char) : String := String.ofList (quotedBy '\'' [c])

def quotedList (texts : List String) : String :=
  "[" ++ String.intercalate ", " (texts.map quoted) ++ "]"

def quotedSet (texts : List String) : String :=
  "\x7b" ++ String.intercalate ", " (texts.map quoted) ++ "\x7d"

end DepsManifest.Text
