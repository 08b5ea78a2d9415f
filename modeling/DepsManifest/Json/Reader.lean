import DepsManifest.Json.NumberReader
/-! # Reading JSON text

The reader accepts exactly one value between blanks, with containers nested to a limit. Objects are
brought into the order of their names, the last member of a name counting.

In a string a control character has to be escaped, and so have the quote and the backslash. An
escape by number of half a character has to be followed by the other half; the halves alone, in
either order, are refused.

The readers of values, elements and members call each other, and none of them takes a part of what
it was given in a way that the recursion could follow. So they count steps. Every step takes at
least one character or goes from a container to what is in it, so that twice the length of a text is
enough.
-/
namespace DepsManifest.Json

/-- How deep containers may be nested. -/
def nestingLimit : Nat := 127

def isBlank (c : Char) : Bool := c = ' ' || c = '\n' || c = '\t' || c = '\r'

/-- A text without the blanks at its beginning. -/
def skipBlanks (cs : List Char) : List Char := cs.dropWhile isBlank

/-! ## Strings -/

/-- The value of four hexadecimal digits. -/
def fourDigits? (a b c d : Char) : Option Nat := do
  let a ← Text.digitValue? 16 a
  let b ← Text.digitValue? 16 b
  let c ← Text.digitValue? 16 c
  let d ← Text.digitValue? 16 d
  return ((a * 16 + b) * 16 + c) * 16 + d

/-- The character that a one-letter escape stands for. -/
def escapeLetter? : Char → Option Char
  | '"' => some '"'
  | '\\' => some '\\'
  | '/' => some '/'
  | 'b' => some '\x08'
  | 'f' => some '\x0c'
  | 'n' => some '\n'
  | 'r' => some '\r'
  | 't' => some '\t'
  | _ => none

/-- Whether a number is the first half of a pair that stands for one character. -/
def isHighHalf (n : Nat) : Bool := 0xd800 ≤ n && n ≤ 0xdbff

/-- Whether a number is the second half of a pair that stands for one character. -/
def isLowHalf (n : Nat) : Bool := 0xdc00 ≤ n && n ≤ 0xdfff

def joinHalves (high low : Nat) : Char :=
  Char.ofNat (0x10000 + (high - 0xd800) * 0x400 + (low - 0xdc00))

/-- The characters of a string from after its opening quote, and the text after its closing one. -/
def readString? : List Char → Option (List Char × List Char)
  | '"' :: rest => some ([], rest)
  | '\\' :: 'u' :: a :: b :: c :: d :: rest => do
    let n ← fourDigits? a b c d
    if isLowHalf n then none
    else if isHighHalf n then
      match rest with
      | '\\' :: 'u' :: a :: b :: c :: d :: rest => do
        let low ← fourDigits? a b c d
        if isLowHalf low then
          let (cs, rest) ← readString? rest
          return (joinHalves n low :: cs, rest)
        else none
      | _ => none
    else
      let (cs, rest) ← readString? rest
      return (Char.ofNat n :: cs, rest)
  | '\\' :: e :: rest => do
    let c ← escapeLetter? e
    let (cs, rest) ← readString? rest
    return (c :: cs, rest)
  | c :: rest =>
    if c.toNat < 0x20 ∨ c = '\\' then none
    else do
      let (cs, rest) ← readString? rest
      return (c :: cs, rest)
  | [] => none

/-! ## Values

The first number bounds the steps that are left; `read?` supplies enough of them for its text. The
second bounds the containers that may still be opened.
-/

mutual

/-- The value at the beginning of a text, and the rest. -/
def readValue? : Nat → Nat → List Char → Option (Json × List Char)
  | 0, _, _ => none
  | steps + 1, depth, cs =>
    match skipBlanks cs with
    | 'n' :: 'u' :: 'l' :: 'l' :: rest => some (.null, rest)
    | 't' :: 'r' :: 'u' :: 'e' :: rest => some (.bool true, rest)
    | 'f' :: 'a' :: 'l' :: 's' :: 'e' :: rest => some (.bool false, rest)
    | '"' :: rest => (readString? rest).map fun (s, rest) => (.str (String.ofList s), rest)
    | '[' :: rest =>
      match depth with
      | 0 => none
      | depth + 1 =>
        match skipBlanks rest with
        | ']' :: rest => some (.arr [], rest)
        | rest => (readItems? steps depth rest).map fun (items, rest) => (.arr items, rest)
    | '{' :: rest =>
      match depth with
      | 0 => none
      | depth + 1 =>
        match skipBlanks rest with
        | '}' :: rest => some (.obj [], rest)
        | rest => (readMembers? steps depth rest).map fun (members, rest) => (object members, rest)
    | cs => (readNumber? cs).map fun (n, rest) => (.num n, rest)

/-- The elements of an array up to its closing bracket, and the rest. -/
def readItems? : Nat → Nat → List Char → Option (List Json × List Char)
  | 0, _, _ => none
  | steps + 1, depth, cs => do
    let (item, rest) ← readValue? steps depth cs
    match skipBlanks rest with
    | ',' :: rest => do
      let (items, rest) ← readItems? steps depth rest
      return (item :: items, rest)
    | ']' :: rest => return ([item], rest)
    | _ => none

/-- The members of an object up to its closing brace, in the order of the text, and the rest. -/
def readMembers? : Nat → Nat → List Char → Option (List (String × Json) × List Char)
  | 0, _, _ => none
  | steps + 1, depth, cs => do
    match skipBlanks cs with
    | '"' :: rest => do
      let (name, rest) ← readString? rest
      match skipBlanks rest with
      | ':' :: rest => do
        let (value, rest) ← readValue? steps depth rest
        match skipBlanks rest with
        | ',' :: rest => do
          let (members, rest) ← readMembers? steps depth rest
          return ((String.ofList name, value) :: members, rest)
        | '}' :: rest => return ([(String.ofList name, value)], rest)
        | _ => none
      | _ => none
    | _ => none

end

/-- The value that a text denotes; nothing if it is no JSON text. -/
def readChars? (cs : List Char) : Option Json :=
  match readValue? (2 * cs.length + 2) nestingLimit cs with
  | some (value, rest) => if (skipBlanks rest).isEmpty then some value else none
  | none => none

/-- The value that a text denotes; nothing if it is no JSON text. -/
def read? (text : String) : Option Json := readChars? text.toList

end DepsManifest.Json
