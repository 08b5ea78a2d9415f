import DepsManifest.Token.Fault
/-! # Reading from the beginning of some tokens

A `Parse` reads something from the beginning of some tokens and gives the tokens that are left; a
`ParseIf` reads it only if it comes next there. Single tokens and repetition are all that the
grammars of expressions and statements are built from. A repetition may run once for each token that
is left, which is more often than it can, as each of its rounds takes a token.

No reader goes back: what a `ParseIf` has begun it has to finish, and its fault is the fault of the
whole. Which way to go is therefore always decided by the next token or two. Where the tokens are
used up, the next one is taken to be the end of the text.
-/
namespace DepsManifest

/-- Reads something from the beginning of some tokens, and gives the tokens that are left. -/
abbrev Parse (α : Type) := List Token → Except (Located SyntaxFault) (α × List Token)

/-- Reads something from the beginning of some tokens if it comes next there. -/
abbrev ParseIf (α : Type) := List Token → Except (Located SyntaxFault) (Option (α × List Token))

namespace Parse

/-! ## Single tokens -/

def current : List Token → Token
  | [] => ⟨.endOfText, 1, 0⟩
  | t :: _ => t

def fault {α : Type} (cause : SyntaxFault) (ts : List Token) : Except (Located SyntaxFault) α :=
  .error ⟨(current ts).line, cause⟩

def unexpected {α : Type} (ts : List Token) : Except (Located SyntaxFault) α :=
  fault (.unexpected (current ts).kind) ts

def atOp (op : Op) (ts : List Token) : Bool := (current ts).kind == .op op

def atKeyword (keyword : String) (ts : List Token) : Bool := (current ts).kind == .name keyword

/-- Whether a logical line ends here. -/
def atLineEnd (ts : List Token) : Bool :=
  (current ts).kind == .newline || (current ts).kind == .endOfText

/-- The tokens after an operator, if it comes next. -/
def skipOp? (op : Op) (ts : List Token) : Option (List Token) :=
  if atOp op ts then some ts.tail else none

/-- The tokens after a keyword, if it comes next. -/
def skipKeyword? (keyword : String) (ts : List Token) : Option (List Token) :=
  if atKeyword keyword ts then some ts.tail else none

/-- The tokens after an operator that has to come next. -/
def expectOp (op : Op) (ts : List Token) : Except (Located SyntaxFault) (List Token) :=
  if atOp op ts then .ok ts.tail else fault (.expectedOp op (current ts).kind) ts

/-- The tokens after a keyword that has to come next. -/
def expectKeyword (keyword : String) (ts : List Token) :
    Except (Located SyntaxFault) (List Token) :=
  if atKeyword keyword ts then .ok ts.tail
  else fault (.expectedKeyword keyword (current ts).kind) ts

/-- The names that have a meaning of their own. -/
def keywords : List String :=
  ["and", "as", "assert", "async", "await", "break", "class", "continue", "def", "del", "elif",
    "else", "except", "finally", "for", "from", "global", "if", "import", "in", "is", "lambda",
    "nonlocal", "not", "or", "pass", "raise", "return", "try", "while", "with", "yield"]

/-- A name that is no keyword. -/
def name : Parse String := fun ts =>
  match (current ts).kind with
  | .name n => if keywords.contains n then unexpected ts else .ok (n, ts.tail)
  | _ => unexpected ts

/-- Whether a kind of token can begin an expression. -/
def startsExpression : TokenKind → Bool
  | .name n => !keywords.contains n || n == "not" || n == "lambda"
  | .literal _ _ => true
  | .number _ => true
  | .op op =>
    op == .leftParen || op == .leftBracket || op == .leftBrace || op == .minus || op == .plus
      || op == .tilde || op == .star || op == .ellipsis
  | .newline => false
  | .endOfText => false

/-! ## Repetition -/

/-- As many pieces as follow one another, at most a given number. -/
def manyUpTo {α : Type} (next : ParseIf α) : Nat → Parse (List α)
  | 0, ts => fault .tooDeep ts
  | n + 1, ts => do
    match ← next ts with
    | none => return ([], ts)
    | some (a, ts) =>
      let (rest, ts) ← manyUpTo next n ts
      return (a :: rest, ts)

/-- As many pieces as follow one another; each takes at least a token. -/
def many {α : Type} (next : ParseIf α) : Parse (List α) := fun ts =>
  manyUpTo next (ts.length + 1) ts

/-- The items after commas, at most a given number; the last comma may have none after it. -/
def afterCommasUpTo {α : Type} (stop : List Token → Bool) (item : Parse α) :
    Nat → Parse (List α)
  | 0, ts => fault .tooDeep ts
  | n + 1, ts =>
    match skipOp? .comma ts with
    | none => .ok ([], ts)
    | some ts =>
      if stop ts then .ok ([], ts)
      else do
        let (a, ts) ← item ts
        let (rest, ts) ← afterCommasUpTo stop item n ts
        return (a :: rest, ts)

/-- The items after commas, up to a comma after which the list stops. -/
def afterCommas {α : Type} (stop : List Token → Bool) (item : Parse α) : Parse (List α) :=
  fun ts => afterCommasUpTo stop item (ts.length + 1) ts

/-- A piece that begins with a given operator. -/
def afterOp {α : Type} (op : Op) (item : Parse α) : ParseIf α := fun ts =>
  match skipOp? op ts with
  | none => .ok none
  | some ts => some <$> item ts

/-- A piece that begins with a given keyword. -/
def afterKeyword {α : Type} (keyword : String) (item : Parse α) : ParseIf α := fun ts =>
  match skipKeyword? keyword ts with
  | none => .ok none
  | some ts => some <$> item ts

end Parse

end DepsManifest
