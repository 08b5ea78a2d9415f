import DepsManifest.Token.Lexeme
/-! # Logical lines

Lexemes become tokens when they are placed: each gets the line and the column it begins at, blanks
are dropped, and so are line breaks inside brackets and after nothing but blanks. The tokens of a
text end with the end of its last logical line and the end of the text. A place is reckoned without
bounds; `Token.recorded` casts it to the two numbers of 32 bits that are kept of it.

What has been placed so far is needed only as a `Context`: the open brackets, and whether a logical
line has begun. A token depends on its lexeme, its place and the context alone.

Faults are reported in the order of the text. Only when there is none is a bracket that was never
closed a fault, the innermost one at the line where it was opened.
-/
namespace DepsManifest

/-- A place in a text: a line, counted from one, and a column, counted in bytes from zero. -/
structure Position where
  line : Nat
  column : Nat
  deriving DecidableEq

namespace Position

def start : Position := ⟨1, 0⟩

/-- The place after a character. -/
def next (p : Position) (c : Char) : Position :=
  if c = '\n' then ⟨p.line + 1, 0⟩ else ⟨p.line, p.column + c.utf8Size⟩

/-- The place after some characters. -/
def after (p : Position) (cs : List Char) : Position := cs.foldl next p

end Position

namespace Token

/-- What has to be known of the tokens so far: the brackets that are open, innermost first with the
line of each, and whether a logical line has begun. -/
structure Context where
  opened : List (Op × Nat)
  inLine : Bool

/-- The brackets that are open after an operator at a line. -/
def openedAfter (opened : List (Op × Nat)) (op : Op) (line : Nat) :
    Except SyntaxFault (List (Op × Nat)) :=
  if op.opensGroup then .ok ((op, line) :: opened)
  else if op.closesGroup then
    match opened with
    | [] => .error (.unmatchedClose op)
    | (opening, _) :: outer =>
      if op.closes opening then .ok outer else .error (.mismatchedClose op opening)
  else .ok opened

/-- The token that a lexeme becomes, if it becomes one, and what is known after it. -/
def place (context : Context) (line : Nat) (lexeme : Lexeme) :
    Except SyntaxFault (Option TokenKind × Context) :=
  match lexeme.kind with
  | .blank => .ok (none, context)
  | .lineBreak =>
    if context.opened.isEmpty && context.inLine then
      .ok (some .newline, { context with inLine := false })
    else .ok (none, context)
  | .name => .ok (some (.name (String.ofList lexeme.chars)), { context with inLine := true })
  | .number => .ok (some (.number (String.ofList lexeme.chars)), { context with inLine := true })
  | .literal kind text => .ok (some (.literal kind text), { context with inLine := true })
  | .op op => do
    let opened ← openedAfter context.opened op line
    return (some (.op op), ⟨opened, true⟩)

/-- The tokens that end a text whose last line is given. -/
def ending (context : Context) (line : Nat) : Except (Located SyntaxFault) (List Token) :=
  match context.opened with
  | (opening, opened) :: _ => .error ⟨opened, .neverClosed opening⟩
  | [] =>
    if context.inLine then .ok [⟨.newline, line, 0⟩, ⟨.endOfText, line, 0⟩]
    else .ok [⟨.endOfText, line, 0⟩]

/-- The tokens of lexemes from a place on, and the fault that follows the lexemes. -/
def layOut (fault : Option SyntaxFault) (context : Context) (p : Position) :
    List Lexeme → Except (Located SyntaxFault) (List Token)
  | [] =>
    match fault with
    | some fault => .error ⟨p.line, fault⟩
    | none => ending context p.line
  | lexeme :: rest =>
    match place context p.line lexeme with
    | .error fault => .error ⟨p.line, fault⟩
    | .ok (kind, context) => do
      let tokens ← layOut fault context (p.after lexeme.chars) rest
      return match kind with
        | some kind => ⟨kind, p.line, p.column⟩ :: tokens
        | none => tokens

def ofChars (cs : List Char) : Except (Located SyntaxFault) (List Token) :=
  let (lexemes, fault) := Lexeme.all cs
  layOut fault ⟨[], false⟩ .start lexemes

def ofText (text : String) : Except (Located SyntaxFault) (List Token) := ofChars text.toList

/-- A token as the stream holds it, with 32 bits for its line and 32 bits for its column. -/
structure Recorded where
  kind : TokenKind
  line : UInt32
  column : UInt32
  deriving DecidableEq

end Token

end DepsManifest
