import DepsManifest.Toml.Basic
/-! # TOML strings and keys

A string is basic, with escapes, or literal, without; each is written on one line between single
delimiters or over several lines between triple ones. A key is a bare word or a string on one line;
several keys with points between them lead into nested tables.

Over several lines the rules differ in three points: a line break right after the opening delimiter
does not count, a backslash at the end of a line takes all blanks and line breaks after it, and up
to two quotes may stand directly before the closing delimiter. The four kinds of strings have a
reader each; those with escapes count the characters of an escape and pass over them.
-/
namespace DepsManifest.Toml

/-! ## Escapes -/

/-- The character that a letter after a backslash stands for. -/
def letterEscape? (c : Char) : Option Char :=
  if c = 'b' then some '\x08'
  else if c = 't' then some '\t'
  else if c = 'n' then some '\n'
  else if c = 'f' then some '\x0c'
  else if c = 'r' then some '\r'
  else if c = 'e' then some '\x1b'
  else if c = '"' then some '"'
  else if c = '\\' then some '\\'
  else none

/-- The number of hexadecimal digits after a marker. -/
def escapeDigits? (marker : Char) : Option Nat :=
  if marker = 'x' then some 2
  else if marker = 'u' then some 4
  else if marker = 'U' then some 8
  else none

/-- What the escape after a backslash stands for, and how many characters it takes. -/
def escape? : List Char → Option (List Char × Nat)
  | [] => none
  | c :: cs =>
    match letterEscape? c with
    | some meaning => some ([meaning], 1)
    | none => do
      let digits ← escapeDigits? c
      let code ← Text.hexadecimalCode? digits 0 cs
      let meaning ← Text.ofCode? code
      return ([meaning], digits + 1)

/-- The number of characters that blanks and line breaks take at the beginning of a text. A carriage
return alone is no line break. -/
def blankLength : List Char → Nat
  | ' ' :: cs => blankLength cs + 1
  | '\t' :: cs => blankLength cs + 1
  | '\n' :: cs => blankLength cs + 1
  | '\r' :: '\n' :: cs => blankLength cs + 2
  | _ => 0

/-- The number of blanks and line breaks after a backslash that ends a line; nothing if there is
more on the line. -/
def lineEnd? (cs : List Char) : Option Nat := do
  let _ ← skipBreak? (skipSpaces cs)
  return blankLength cs

/-- An escape in a string over several lines; a backslash may also end a line. -/
def blockEscape? (cs : List Char) : Option (List Char × Nat) :=
  match lineEnd? cs with
  | some length => some ([], length)
  | none => escape? cs

/-! ## Strings -/

/-- The rest of a basic string on one line, and what follows it. The first number counts the
characters that belong to an escape already read. -/
def basic? : Nat → List Char → Option (List Char × List Char)
  | _, [] => none
  | read + 1, _ :: cs => basic? read cs
  | 0, c :: cs =>
    if c = '"' then some ([], cs)
    else if c = '\\' then do
      let (meaning, length) ← escape? cs
      let (text, rest) ← basic? length cs
      return (meaning ++ text, rest)
    else if isPrintable c then do
      let (text, rest) ← basic? 0 cs
      return (c :: text, rest)
    else none

def literal? : List Char → Option (List Char × List Char)
  | [] => none
  | c :: cs =>
    if c = '\'' then some ([], cs)
    else if isPrintable c then do
      let (text, rest) ← literal? cs
      return (c :: text, rest)
    else none

/-- The quotes at the end of a string over several lines: up to two belong to the string. -/
def blockEnd? (quote : Char) (cs : List Char) : Option (List Char × List Char) :=
  let quotes := cs.takeWhile (· = quote)
  if quotes.length ≤ 5 then some (quotes.drop 3, cs.drop quotes.length) else none

/-- Whether a text begins with a triple delimiter. -/
def atTriple (quote : Char) (cs : List Char) : Bool :=
  (Text.afterBeginning? [quote, quote, quote] cs).isSome

/-- Whether a character can stand in a string over several lines, given what follows it. -/
def isBlockChar (c : Char) (cs : List Char) : Bool :=
  isPrintable c || c == '\n' || (c == '\r' && cs.head? == some '\n')

/-- The rest of a basic string over several lines, and what follows it. -/
def blockBasic? : Nat → List Char → Option (List Char × List Char)
  | _, [] => none
  | read + 1, _ :: cs => blockBasic? read cs
  | 0, c :: cs =>
    if atTriple '"' (c :: cs) then blockEnd? '"' (c :: cs)
    else if c = '\\' then do
      let (meaning, length) ← blockEscape? cs
      let (text, rest) ← blockBasic? length cs
      return (meaning ++ text, rest)
    else if isBlockChar c cs then do
      let (text, rest) ← blockBasic? 0 cs
      return (c :: text, rest)
    else none

/-- The rest of a literal string over several lines, and what follows it. -/
def blockLiteral? : List Char → Option (List Char × List Char)
  | [] => none
  | c :: cs =>
    if atTriple '\'' (c :: cs) then blockEnd? '\'' (c :: cs)
    else if isBlockChar c cs then do
      let (text, rest) ← blockLiteral? cs
      return (c :: text, rest)
    else none

/-- The string over several lines after its opening delimiter; a line break right there does not
count. -/
def block? (quote : Char) (cs : List Char) : Option (List Char × List Char) :=
  let cs := (skipBreak? cs).getD cs
  if quote = '"' then blockBasic? 0 cs else blockLiteral? cs

/-- The string on one line after its opening quote. -/
def line? (quote : Char) (cs : List Char) : Option (List Char × List Char) :=
  if quote = '"' then basic? 0 cs else literal? cs

def isQuote (c : Char) : Bool := c == '"' || c == '\''

/-- The string that a text begins with, and what follows it. -/
def string? : List Char → Option (List Char × List Char)
  | [] => none
  | c :: cs =>
    if ¬ isQuote c then none
    else
      match Text.afterBeginning? [c, c] cs with
      | some rest => block? c rest
      | none => line? c cs

/-! ## Keys -/

/-- Whether a character can stand in a bare key. -/
def isKeyChar (c : Char) : Bool := c.isAlphanum || c == '_' || c == '-'

def simpleKey? : List Char → Option (String × List Char)
  | [] => none
  | c :: cs =>
    if isQuote c then (line? c cs).map fun (text, rest) => (String.ofList text, rest)
    else
      let word := (c :: cs).takeWhile isKeyChar
      if word.isEmpty then none else some (String.ofList word, (c :: cs).drop word.length)

/-- Keys with points between them, at most a given number, and what follows them. -/
def keyPathUpTo? : Nat → List Char → Option (List String × List Char)
  | 0, _ => none
  | n + 1, cs => do
    let (key, rest) ← simpleKey? (skipSpaces cs)
    match skipSpaces rest with
    | '.' :: rest => do
      let (keys, rest) ← keyPathUpTo? n rest
      return (key :: keys, rest)
    | rest => return ([key], rest)

/-- Keys with points between them, no more of them than tables may be nested, and what follows
them. -/
def keyPath? (cs : List Char) : Option (List String × List Char) :=
  keyPathUpTo? nestingLimit cs

end DepsManifest.Toml
