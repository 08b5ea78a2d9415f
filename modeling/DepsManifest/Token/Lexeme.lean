import DepsManifest.Token.Literal
/-! # Lexemes

A source is cut into lexemes from left to right, each as long as it can be. A lexeme keeps its own
characters, so that the lexemes of a source put together are the source, up to the place where it is
faulty. Blanks, comments and continued line breaks are lexemes too; they become no tokens.

Each kind of lexeme has a function that gives the part of a text it takes, the empty one if there is
none of that kind. A lexeme is found by asking them one after the other (`Lexeme.at?`): the literals
first, because their marks could be a name, and numbers before operators, because a point can begin
either. Numbers have the forms of the language, with bases, exponents and suffixes, although none is
ever evaluated.

Cutting counts the characters of a lexeme that has been found and passes over them (`allFrom`). So
it is a recursion over the text.
-/
namespace DepsManifest

/-- What a lexeme is. -/
inductive LexemeKind where
  | blank
  | lineBreak
  | name
  | number
  | literal (kind : LiteralKind) (text : String)
  | op (op : Op)
  deriving DecidableEq

/-- A lexeme and its characters. -/
structure Lexeme where
  kind : LexemeKind
  chars : List Char
  deriving DecidableEq

namespace Lexeme

/-! ## Classes of characters

The grammar of names and numbers knows ASCII characters only. -/

/-- Whether a name can begin with a character. -/
def isNameStart (c : Char) : Bool := c.isAlpha || c == '_'

/-- Whether a name can go on with a character. -/
def isNamePart (c : Char) : Bool := c.isAlphanum || c == '_'

/-- Whether a character separates lexemes within a line. -/
def isSpace (c : Char) : Bool := c == ' ' || c == '\t' || c == '\x0c'

/-- Whether a character is a digit of a decimal number or separates two. -/
def isDigitPart (c : Char) : Bool := c.isDigit || c == '_'

/-- Whether a character is a digit in a base or separates two. -/
def isRadixPart (base : Nat) (c : Char) : Bool :=
  (Text.digitValue? base c).isSome || c == '_'

/-! ## Blanks -/

/-- The blanks, the comment or the continued line break that a text begins with. -/
def blankPart : List Char → List Char
  | '#' :: cs => '#' :: cs.takeWhile (· ≠ '\n')
  | '\\' :: '\n' :: _ => ['\\', '\n']
  | '\\' :: '\r' :: '\n' :: _ => ['\\', '\r', '\n']
  | cs => cs.takeWhile isSpace

/-- The line break that a text begins with. -/
def breakPart : List Char → List Char
  | '\n' :: _ => ['\n']
  | '\r' :: '\n' :: _ => ['\r', '\n']
  | _ => []

/-! ## Numbers -/

/-- The base that a letter after a zero stands for. -/
def radix? (c : Char) : Option Nat :=
  if c = 'x' ∨ c = 'X' then some 16
  else if c = 'o' ∨ c = 'O' then some 8
  else if c = 'b' ∨ c = 'B' then some 2
  else none

/-- The number in another base that a text begins with. -/
def radixPart : List Char → List Char
  | '0' :: mark :: cs =>
    match radix? mark with
    | some base =>
      let digits := cs.takeWhile (isRadixPart base)
      if digits.isEmpty then [] else '0' :: mark :: digits
    | none => []
  | _ => []

/-- The decimal digits, with a point among or before them, that a text begins with. -/
def mantissaPart : List Char → List Char
  | [] => []
  | c :: cs =>
    if c.isDigit then
      let whole := c :: cs.takeWhile isDigitPart
      match cs.dropWhile isDigitPart with
      | '.' :: fraction => whole ++ '.' :: fraction.takeWhile isDigitPart
      | _ => whole
    else if c = '.' then
      match cs with
      | d :: fraction => if d.isDigit then '.' :: d :: fraction.takeWhile isDigitPart else []
      | [] => []
    else []

def signPart : List Char → List Char
  | '+' :: _ => ['+']
  | '-' :: _ => ['-']
  | _ => []

def exponentPart : List Char → List Char
  | [] => []
  | c :: cs =>
    if c = 'e' ∨ c = 'E' then
      let sign := signPart cs
      let digits := (cs.drop sign.length).takeWhile Char.isDigit
      if digits.isEmpty then [] else c :: sign ++ digits
    else []

/-- The letter after a number that a text begins with. -/
def suffixPart : List Char → List Char
  | [] => []
  | c :: _ => if c = 'j' ∨ c = 'J' ∨ c = 'l' ∨ c = 'L' then [c] else []

/-- The decimal number that a text begins with. -/
def decimalPart (cs : List Char) : List Char :=
  let mantissa := mantissaPart cs
  if mantissa.isEmpty then []
  else
    let exponent := exponentPart (cs.drop mantissa.length)
    let suffix := suffixPart (cs.drop (mantissa.length + exponent.length))
    mantissa ++ exponent ++ suffix

def numberPart (cs : List Char) : List Char :=
  let digits := radixPart cs
  if digits.isEmpty then decimalPart cs else digits

/-! ## Names, operators and literals -/

def namePart : List Char → List Char
  | [] => []
  | c :: cs => if isNameStart c then c :: cs.takeWhile isNamePart else []

/-- The longest operator that a text begins with. -/
def opAt? (cs : List Char) : Option Op :=
  Op.longestFirst.find? fun op => (Text.afterBeginning? op.chars cs).isSome

/-- The literal with given marks and delimiter, given what follows the delimiter. -/
def literalAt (marks : List Char) (d : Delimiter) (after : List Char) :
    Except SyntaxFault Lexeme :=
  match d.body? after with
  | none => .error .unterminatedLiteral
  | some body => do
    let text ← Literal.decode marks body
    return ⟨.literal (Literal.kind marks) (String.ofList text), marks ++ d.chars ++ body ++ d.chars⟩

/-! ## Cutting -/

/-- The lexeme at the beginning of a text, given its first character and the rest. The marks of a
literal are no name, and a point before a digit is no operator. -/
def at? (c : Char) (cs : List Char) : Except SyntaxFault Lexeme :=
  let text := c :: cs
  match Literal.opening? text with
  | some (marks, d, after) => literalAt marks d after
  | none =>
    let blank := blankPart text
    let lineBreak := breakPart text
    let name := namePart text
    let number := numberPart text
    if !blank.isEmpty then .ok ⟨.blank, blank⟩
    else if !lineBreak.isEmpty then .ok ⟨.lineBreak, lineBreak⟩
    else if !name.isEmpty then .ok ⟨.name, name⟩
    else if !number.isEmpty then .ok ⟨.number, number⟩
    else
      match opAt? text with
      | some op => .ok ⟨.op op, op.chars⟩
      | none => .error (.invalidCharacter c)

/-- The lexemes of a text, of whose characters a number belong to a lexeme already read; and what
is wrong where they end before the text does. -/
def allFrom : Nat → List Char → List Lexeme × Option SyntaxFault
  | _, [] => ([], none)
  | read + 1, _ :: cs => allFrom read cs
  | 0, c :: cs =>
    match at? c cs with
    | .error fault => ([], some fault)
    | .ok lexeme =>
      let (rest, fault) := allFrom (lexeme.chars.length - 1) cs
      (lexeme :: rest, fault)

/-- The lexemes of a text, and what is wrong where they end before the text does. -/
def all (cs : List Char) : List Lexeme × Option SyntaxFault := allFrom 0 cs

end Lexeme

end DepsManifest
