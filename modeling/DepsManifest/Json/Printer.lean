import DepsManifest.Json.Basic
/-! # JSON as text

Two layouts: compact, without any blank, and indented by two spaces, one element or member a line.
Members are written in the order in which they stand. In strings the quote, the backslash and the
controls are escaped, five of these with a letter and the rest by four hexadecimal digits; all other
characters stand for themselves.

An empty array or object has nothing between its brackets in either layout. Both layouts print
numbers and strings alike, so they differ only in blanks outside of strings.
-/
namespace DepsManifest.Json

def stringChar (c : Char) : List Char :=
  if c = '"' then ['\\', '"']
  else if c = '\\' then ['\\', '\\']
  else if c = '\x08' then ['\\', 'b']
  else if c = '\x0c' then ['\\', 'f']
  else if c = '\n' then ['\\', 'n']
  else if c = '\r' then ['\\', 'r']
  else if c = '\t' then ['\\', 't']
  else if c.toNat < 0x20 then
    ['\\', 'u', '0', '0', Nat.digitChar (c.toNat / 16), Nat.digitChar (c.toNat % 16)]
  else [c]

/-- A string between its quotes. -/
def stringText (s : String) : List Char := '"' :: s.toList.flatMap stringChar ++ ['"']

/-! ## Without blanks -/

mutual

/-- The compact text of a value. -/
def compactText : Json → List Char
  | .null => "null".toList
  | .bool true => "true".toList
  | .bool false => "false".toList
  | .num n => n.text
  | .str s => stringText s
  | .arr items => '[' :: compactItems items ++ [']']
  | .obj members => '{' :: compactMembers members ++ ['}']

/-- The elements of an array, with commas between them. -/
def compactItems : List Json → List Char
  | [] => []
  | [item] => compactText item
  | item :: rest => compactText item ++ ',' :: compactItems rest

/-- The members of an object, with commas between them. -/
def compactMembers : List (String × Json) → List Char
  | [] => []
  | [(name, value)] => stringText name ++ ':' :: compactText value
  | (name, value) :: rest =>
    stringText name ++ ':' :: (compactText value ++ ',' :: compactMembers rest)

end

def compact (j : Json) : String := String.ofList j.compactText

/-! ## Indented -/

/-- A line break and the blanks of an indentation. -/
def lineStart (depth : Nat) : List Char := '\n' :: List.replicate (2 * depth) ' '

mutual

def indentedText (depth : Nat) : Json → List Char
  | .null => "null".toList
  | .bool true => "true".toList
  | .bool false => "false".toList
  | .num n => n.text
  | .str s => stringText s
  | .arr [] => ['[', ']']
  | .arr items => '[' :: indentedItems (depth + 1) items ++ lineStart depth ++ [']']
  | .obj [] => ['{', '}']
  | .obj members => '{' :: indentedMembers (depth + 1) members ++ lineStart depth ++ ['}']

/-- The elements of an array, each on its line. -/
def indentedItems (depth : Nat) : List Json → List Char
  | [] => []
  | [item] => lineStart depth ++ indentedText depth item
  | item :: rest => lineStart depth ++ indentedText depth item ++ ',' :: indentedItems depth rest

/-- The members of an object, each on its line. -/
def indentedMembers (depth : Nat) : List (String × Json) → List Char
  | [] => []
  | [(name, value)] =>
    lineStart depth ++ stringText name ++ [':', ' '] ++ indentedText depth value
  | (name, value) :: rest =>
    lineStart depth ++ stringText name ++ [':', ' '] ++ indentedText depth value
      ++ ',' :: indentedMembers depth rest

end

def indented (j : Json) : String := String.ofList (j.indentedText 0)

end DepsManifest.Json
