import DepsManifest.Token.Fault
/-! # String literals

A literal is written between a quote and the same quote again, or between three and three, with up
to two marks before it. Reading it has two steps: `body?` finds the end of the literal, and
`unescape` replaces the escapes of a body that is not raw. A body is read unit by unit; `unitAt`
gives the unit at the beginning of a body, and everything else follows from it.

A unit is a character that stands for itself, or an escape. A backslash before anything that it has
no meaning with stands for itself. An escape by number is a fault if digits are missing or if there
is no such character; octal escapes take up to three digits.

Finding the end does not look at marks: a raw literal, too, does not end at a quote after a
backslash.
-/
namespace DepsManifest

/-- How a literal is delimited. -/
structure Delimiter where
  quote : Char
  triple : Bool
  deriving DecidableEq

namespace Delimiter

def chars (d : Delimiter) : List Char :=
  if d.triple then [d.quote, d.quote, d.quote] else [d.quote]

/-- The body of a literal up to its closing delimiter. A backslash takes the next character with
it, or a whole line break; otherwise a line ends a literal with a single quote unclosed. -/
def body? (d : Delimiter) : List Char → Option (List Char)
  | [] => none
  | ['\\'] => none
  | '\\' :: '\r' :: '\n' :: cs => (d.body? cs).map ('\\' :: '\r' :: '\n' :: ·)
  | '\\' :: c :: cs => (d.body? cs).map ('\\' :: c :: ·)
  | c :: cs =>
    if (Text.afterBeginning? d.chars (c :: cs)).isSome then some []
    else if c = '\n' ∧ ¬ d.triple then none
    else (d.body? cs).map (c :: ·)

end Delimiter

namespace Literal

/-! ## The beginning of a literal -/

def isMark (c : Char) : Bool :=
  c == 'r' || c == 'R' || c == 'u' || c == 'U' || c == 'b' || c == 'B' || c == 'f' || c == 'F'

def isQuote (c : Char) : Bool := c == '\'' || c == '"'

/-- The delimiter that a text begins with, given its first quote and what follows that. -/
def delimiter (quote : Char) (after : List Char) : Delimiter :=
  ⟨quote, (Text.afterBeginning? [quote, quote] after).isSome⟩

/-- The marks, the delimiter and the rest of a literal that a text begins with. -/
def opening? (cs : List Char) : Option (List Char × Delimiter × List Char) :=
  let marks := (cs.takeWhile isMark).take 2
  match cs.drop marks.length with
  | [] => none
  | quote :: after =>
    if isQuote quote then
      let d := delimiter quote after
      some (marks, d, after.drop (d.chars.length - 1))
    else none

/-- Whether a mark is among the marks of a literal, in either case. -/
def hasMark (lower upper : Char) (marks : List Char) : Bool :=
  marks.any fun c => c == lower || c == upper

def kind (marks : List Char) : LiteralKind :=
  if hasMark 'b' 'B' marks then .bytes
  else if hasMark 'f' 'F' marks then .formatted
  else .text

def isRaw (marks : List Char) : Bool := hasMark 'r' 'R' marks

/-! ## Escapes -/

/-- The character that a backslash and a letter stand for. -/
def letterEscape? (c : Char) : Option Char :=
  if c = '\\' then some '\\'
  else if c = '\'' then some '\''
  else if c = '"' then some '"'
  else if c = 'a' then some '\x07'
  else if c = 'b' then some '\x08'
  else if c = 'f' then some '\x0c'
  else if c = 'n' then some '\n'
  else if c = 'r' then some '\r'
  else if c = 't' then some '\t'
  else if c = 'v' then some '\x0b'
  else none

/-- The number of hexadecimal digits after a marker. -/
def escapeDigits? (marker : Char) : Option Nat :=
  if marker = 'x' then some 2
  else if marker = 'u' then some 4
  else if marker = 'U' then some 8
  else none

/-- The code of up to a given number of octal digits, and how many there are. -/
def octalCode : Nat → Nat → List Char → Nat × Nat
  | 0, code, _ => (code, 0)
  | _ + 1, code, [] => (code, 0)
  | n + 1, code, c :: cs =>
    match Text.digitValue? 8 c with
    | some d =>
      let (code, count) := octalCode n (code * 8 + d) cs
      (code, count + 1)
    | none => (code, 0)

/-- A piece of a body: what it stands for, and how many characters it takes. -/
structure BodyUnit where
  meaning : List Char
  length : Nat
  deriving DecidableEq

/-- The unit that a backslash begins, given what follows it. -/
def escapeAt : List Char → Except SyntaxFault BodyUnit
  | [] => .ok ⟨['\\'], 1⟩
  | '\n' :: _ => .ok ⟨[], 2⟩
  | '\r' :: '\n' :: _ => .ok ⟨[], 3⟩
  | '\r' :: _ => .ok ⟨[], 2⟩
  | c :: cs =>
    match letterEscape? c with
    | some meaning => .ok ⟨[meaning], 2⟩
    | none =>
      if (Text.digitValue? 8 c).isSome then
        let (code, count) := octalCode 3 0 (c :: cs)
        .ok ⟨[(Text.ofCode? code).getD '\ufffd'], count + 1⟩
      else
        match escapeDigits? c with
        | none => .ok ⟨['\\', c], 2⟩
        | some digits =>
          match Text.hexadecimalCode? digits 0 cs with
          | none => .error (.truncatedEscape c)
          | some code =>
            match Text.ofCode? code with
            | none => .error (.invalidCodePoint c code)
            | some meaning => .ok ⟨[meaning], digits + 2⟩

/-- The unit at the beginning of a body, given its first character and the rest. -/
def unitAt (c : Char) (cs : List Char) : Except SyntaxFault BodyUnit :=
  if c = '\\' then escapeAt cs else .ok ⟨[c], 1⟩

/-- The meaning of a body, of whose characters a number belong to a unit already read. -/
def unescapeFrom : Nat → List Char → Except SyntaxFault (List Char)
  | _, [] => .ok []
  | read + 1, _ :: cs => unescapeFrom read cs
  | 0, c :: cs => do
    let u ← unitAt c cs
    let rest ← unescapeFrom (u.length - 1) cs
    return u.meaning ++ rest

/-- The meaning of a body. -/
def unescape (body : List Char) : Except SyntaxFault (List Char) := unescapeFrom 0 body

def decode (marks body : List Char) : Except SyntaxFault (List Char) :=
  if isRaw marks then .ok body else unescape body

end Literal

end DepsManifest
