import DepsManifest.Token.Op
/-! # Tokens

What a parser of manifests reads: names, literals, numbers and operators, the ends of logical lines,
and the end of the text. A token stands at a line, counted from one, and a column, counted in bytes
from zero. String literals are decoded; a number keeps the text it was written as.

Keywords are names here; which names are keywords only the parser knows. A token has no end: what
its text is, and how long, is known to its lexeme.
-/
namespace DepsManifest

/-- What the marks before a string literal make of it. -/
inductive LiteralKind where
  | text
  | bytes
  | formatted
  deriving DecidableEq, Inhabited

inductive TokenKind where
  | name (text : String)
  | literal (kind : LiteralKind) (text : String)
  | number (text : String)
  | op (symbol : Op)
  | newline
  | endOfText
  deriving DecidableEq, Inhabited

/-- A token and where it begins. -/
structure Token where
  kind : TokenKind
  line : Nat
  column : Nat
  deriving DecidableEq, Inhabited

/-- A kind of token as messages write it. -/
def TokenKind.description : TokenKind → String
  | .name text => "'" ++ text ++ "'"
  | .literal _ _ => "string literal"
  | .number text => "number " ++ text
  | .op o => "'" ++ o.text ++ "'"
  | .newline => "end of line"
  | .endOfText => "end of input"

end DepsManifest
